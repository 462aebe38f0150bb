import ShortQ.DashboardViews

/-! # What the lists of the dashboard show

Whatever the API answers, the markup of a list is read as the document that is meant: its values
stand in texts and in addresses, and no script runs but a call for a row's number. -/
namespace DashboardDocuments

open DashboardViews
open GoText (Str lit)
open Markup

/-! ## The documents -/

/-- A call of a handler for a number. -/
def call (f : Str) (n : ℤ) : Str := f ++ lit "(" ++ numberText n ++ lit ")"

def button (kind handler label : Str) : Node :=
  .element (lit "button") [(lit "class", kind), (lit "onclick", handler)] [.text label]

def div (kind : Str) (children : List Node) : Node :=
  .element (lit "div") [(lit "class", kind)] children

def plainDiv (children : List Node) : Node := .element (lit "div") [] children

def bold (children : List Node) : Node := .element (lit "b") [] children

/-- A value as a text. -/
def shown (s : Str) : Node := .text (textOf s)

/-- A list without rows. -/
def empty (message : Str) : List Node := [div (lit "empty") [.text message]]

def linkAddress (x : LinkItem) : Node :=
  .element (lit "a") [(lit "href", valueOf x.shortUrl), (lit "target", lit "_blank"),
    (lit "rel", lit "noopener")] [shown x.shortUrl]

def homeLinkNodes (x : LinkItem) : List Node :=
  [.text (lit "\n    "),
    div (lit "row link-row home-link-row")
      [.text (lit "\n      "),
        plainDiv
          [bold [shown (textOr x.title x.slug)], linkAddress x,
            div (lit "tiny")
              [.text (numberText x.clicks), .text (lit " clicks · "), shown (visibilityLabel x)]],
        .text (lit "\n      "),
        button (lit "secondary") (call (lit "openLinkReport") x.id) (lit "Report"),
        .text (lit "\n      "),
        button (lit "secondary") (call (lit "qrForLink") x.id) (lit "QR"),
        .text (lit "\n    ")]]

def creatorNodes (x : LinkItem) : List Node :=
  if x.creatorName = [] then [] else
    [div (lit "tiny")
      [.text (lit "Created by "), shown x.creatorName, .text (lit " · "), shown x.creatorEmail]]

def editNodes (currentUser : Option CurrentUser) (x : LinkItem) : List Node :=
  if canManageLink currentUser x then
    [button (lit "secondary") (call (lit "editLink") x.id) (lit "Edit")]
  else []

def deleteNodes (allowed : Bool) (f : Str) (id : ℤ) (label locked why : Str) : List Node :=
  if allowed then [button (lit "danger") (call f id) label]
  else
    [.element (lit "button")
      [(lit "class", lit "danger"), (lit "disabled", []), (lit "title", why)] [.text locked]]

def deleteLinkNodes (currentUser : Option CurrentUser) (x : LinkItem) : List Node :=
  if canManageLink currentUser x then
    deleteNodes (canDelete currentUser) (lit "delLink") x.id (lit "Delete") (lit "Delete locked")
      (lit "Deletion access must be activated by a superadmin")
  else []

def linkNodes (locale : LocaleText) (currentUser : Option CurrentUser) (x : LinkItem) : List Node :=
  [.text (lit "\n    "),
    div (lit "row link-row")
      [.text (lit "\n      "),
        plainDiv
          [.text (lit "\n        "), bold [shown (textOr x.title x.slug)],
            .text (lit "\n        "), linkAddress x, .text (lit "\n        "),
            div (lit "tiny")
              [.text (numberText x.clicks), .text (lit " clicks · "), shown (visibilityLabel x)],
            .text (lit "\n        "),
            div (lit "tiny") [.text (lit "Created "), .text (locale.date x.createdAt).val],
            .text (lit "\n        "), div (lit "tiny original-url") [shown x.targetUrl],
            .text (lit "\n        "),
            .element (lit "button")
              [(lit "type", lit "button"), (lit "class", lit "url-toggle"),
                (lit "aria-expanded", lit "false"),
                (lit "onclick", lit "toggleTargetURL(this)")] [.text (lit "Show full URL")],
            .text (lit "\n        "), .fragment (creatorNodes x), .text (lit "\n      ")],
        .text (lit "\n      "),
        button (lit "secondary") (call (lit "openLinkReport") x.id) (lit "Report"),
        .text (lit "\n      "), .fragment (editNodes currentUser x), .text (lit "\n      "),
        button (lit "secondary") (call (lit "qrForLink") x.id) (lit "QR"),
        .text (lit "\n      "), .fragment (deleteLinkNodes currentUser x), .text (lit "\n    ")]]

def keyNodes (locale : LocaleText) (currentUser : Option CurrentUser) (k : KeyItem) : List Node :=
  [.text (lit "\n    "),
    div (lit "row one-action")
      [.text (lit "\n      "),
        plainDiv
          [bold [shown k.name],
            div (lit "tiny")
              [shown k.keyPrefix, .text (lit " · "), shown k.scope, .text (lit " scope · "),
                .text (locale.date k.createdAt).val]],
        .text (lit "\n      "),
        .fragment (deleteNodes (canDelete currentUser) (lit "delKey") k.id (lit "Revoke")
          (lit "Revoke locked") (lit "Deletion access required")),
        .text (lit "\n    ")]]

def tenantNodes (t : TenantItem) : List Node :=
  [div (lit "row no-actions")
    [plainDiv
      [bold [shown t.name],
        div (lit "tiny")
          [.text (lit "id "), .text (numberText t.id), .text (lit " · "), shown t.slug]]]]

def option (value : Str) (children : List Node) : Node :=
  .element (lit "option") [(lit "value", value)] children

def tenantOptionNodes (t : TenantItem) : List Node :=
  [option (numberText t.id) [shown t.name, .text (lit " ("), shown t.slug, .text (lit ")")]]

def ownTenantNodes (currentUser : CurrentUser) : List Node :=
  [option (numberOr currentUser.tenantId nothing).val
    [.text (lit "department "), .text (numberOr currentUser.tenantId dash).val]]

def tenantOptionsNodes (currentUser : CurrentUser) (tenantCache : List TenantItem) : List Node :=
  if currentUser.role = lit "tenant" then ownTenantNodes currentUser
  else option [] [.text (lit "select department")] :: tenantCache.flatMap tenantOptionNodes

def domainNodes (currentUser : Option CurrentUser) (d : DomainItem) : List Node :=
  [.text (lit "\n    "),
    div (lit "row")
      [.text (lit "\n      "),
        plainDiv
          [bold [shown d.domain],
            div (lit "tiny")
              [shown d.status, .text (lit " · department "), .text (numberText d.tenantId),
                .void (lit "br") [], .text (lit "TXT _shortq."), shown d.domain,
                .text (lit " = shortq-verify="), shown d.verificationToken]],
        .text (lit "\n      "),
        button (lit "secondary") (call (lit "verifyDomain") d.id) (lit "Verify"),
        .text (lit "\n      "),
        .fragment (deleteNodes (canDelete currentUser) (lit "delDomain") d.id (lit "Delete")
          (lit "Delete locked") (lit "Deletion access required")),
        .text (lit "\n    ")]]

/-- The call that turns the right to delete on or off. -/
def deletionCall (u : UserItem) : Str :=
  lit "setDeletionAccess(" ++ numberText u.id ++ lit ", " ++ (flag !u.deletionAccess).val ++
    lit ")"

def deletionNodes (currentUser : CurrentUser) (u : UserItem) : List Node :=
  if currentUser.role = lit "superadmin" && u.role ≠ lit "superadmin" then
    [button (dangerClass u).val (deletionCall u) (toggleLabel u).val]
  else []

def customerNodes (currentUser : CurrentUser) (u : UserItem) : List Node :=
  [div (lit "row")
    [plainDiv
      [bold [shown u.name],
        div (lit "tiny")
          [shown u.email, .text (lit " · "), shown (roleLabel u.role), .text (lit " · department "),
            .text (numberOr u.tenantId dash).val, .text (lit " · "), .text (activeLabel u).val,
            .text (lit " · deletion "), .text (deletionLabel u).val]],
      button (lit "secondary") (call (lit "openUserReport") u.id) (lit "Report"),
      .fragment (deletionNodes currentUser u)]]

def auditNodes (locale : LocaleText) (e : AuditItem) : List Node :=
  [div (lit "row no-actions")
    [plainDiv
      [bold [shown e.action, .text (lit " · "), shown e.outcome],
        div (lit "tiny")
          [.text (locale.date e.createdAt).val, .text (lit " · "), shown e.actorEmail,
            .text (lit " via "), shown e.authType, .text (lit " · "), shown e.targetType,
            .text (lit " "), shown e.targetId, .text (lit " · "),
            shown (textOr e.ipAddress (lit "-"))]]]]

/-- A figure over what it counts. -/
def figure (n : ℤ) (caption : Node) : Node :=
  plainDiv [bold [.text (numberText n)], .element (lit "span") [] [caption]]

def breakdownNodes (x : PointItem) : List Node :=
  [figure x.clicks (shown (textOr x.key (lit "unknown")))]

def clickNodes (locale : LocaleText) (x : ClickItem) : List Node :=
  [div (lit "row no-actions")
    [plainDiv
      [bold [.text (lit "/"), shown x.slug],
        div (lit "tiny")
          [.text (locale.date x.createdAt).val, .text (lit " · "),
            shown (textOr x.countryCode (lit "unknown")), .text (lit " · "), shown x.device,
            .text (lit " · "), shown x.browser, .text (lit " · "), shown x.routeType,
            .text (lit " → "), .text (numberText x.statusCode)]]]]

def statNodes (e : Str × ℤ) : List Node := [figure e.2 (.text (spaced e.1))]

/-! ## The rows

Each template is read once, its values unread. -/

set_option maxRecDepth 8000

theorem shows_homeLinkRow (x : LinkItem) : Shows (homeLinkRow x).html (homeLinkNodes x) := by
  refine Template.shows .nil ?_
  simp only [homeLinkRow, homeLinkNodes, button, call, div, plainDiv, bold, shown, linkAddress,
    lit_bytes]
  rfl

theorem shows_creatorLine (x : LinkItem) : Shows (creatorLine x).html (creatorNodes x) := by
  unfold creatorLine creatorNodes
  split
  · exact .nil
  · refine Template.shows .nil ?_
    simp only [div, shown, lit_bytes]
    rfl

theorem shows_editButton (currentUser : Option CurrentUser) (x : LinkItem) :
    Shows (editButton currentUser x).html (editNodes currentUser x) := by
  unfold editButton editNodes
  split
  · refine Template.shows .nil ?_
    simp only [button, call, lit_bytes]
    rfl
  · exact .nil

/-- The texts of the button are the program's own. -/
theorem shows_deleteButton (allowed : Bool) {f label locked why : Str} (id : ℤ)
    (hf : ∀ b ∈ f, inert b = true) (hlabel : ∀ b ∈ label, inert b = true)
    (hlocked : ∀ b ∈ locked, inert b = true) (hwhy : ∀ b ∈ why, inert b = true) :
    Shows (deleteButton allowed f id label locked why).html
      (deleteNodes allowed f id label locked why) := by
  unfold deleteButton deleteNodes
  split
  · have hpieces : Shows (Template.html
        [.markup (lit "<button class=\"danger\" onclick=\""), .plain ⟨f, hf⟩, .markup (lit "("),
          .plain (number id), .markup (lit ")\">"), .plain ⟨label, hlabel⟩,
          .markup (lit "</button>")])
        [button (lit "danger") (call f id) label] := by
      refine Template.shows .nil ?_
      simp only [button, call, lit_bytes]
      rfl
    simpa [Template.html, Piece.text] using hpieces
  · have hpieces : Shows (Template.html
        [.markup (lit "<button class=\"danger\" disabled title=\""), .plain ⟨why, hwhy⟩,
          .markup (lit "\">"), .plain ⟨locked, hlocked⟩, .markup (lit "</button>")])
        [.element (lit "button")
          [(lit "class", lit "danger"), (lit "disabled", []), (lit "title", why)]
          [.text locked]] := by
      refine Template.shows .nil ?_
      simp only [lit_bytes]
      rfl
    simpa [Template.html, Piece.text] using hpieces

theorem shows_deleteLinkButton (currentUser : Option CurrentUser) (x : LinkItem) :
    Shows (deleteLinkButton currentUser x).html (deleteLinkNodes currentUser x) := by
  unfold deleteLinkButton deleteLinkNodes
  split
  · exact shows_deleteButton _ x.id (by decide) (by decide) (by decide) (by decide)
  · exact .nil

theorem shows_linkRow (locale : LocaleText) (currentUser : Option CurrentUser) (x : LinkItem) :
    Shows (linkRow locale currentUser x).html (linkNodes locale currentUser x) := by
  refine Template.shows (.cons (shows_creatorLine x) (.cons (shows_editButton currentUser x)
    (.cons (shows_deleteLinkButton currentUser x) .nil))) ?_
  simp only [linkRow, linkNodes, button, call, div, plainDiv, bold, shown, linkAddress, lit_bytes]
  rfl

theorem shows_keyRow (locale : LocaleText) (currentUser : Option CurrentUser) (k : KeyItem) :
    Shows (keyRow locale currentUser k).html (keyNodes locale currentUser k) := by
  refine Template.shows (.cons (shows_deleteButton _ k.id (by decide) (by decide) (by decide)
    (by decide)) .nil) ?_
  simp only [keyRow, keyNodes, div, plainDiv, bold, shown, lit_bytes]
  rfl

theorem shows_tenantRow (t : TenantItem) : Shows (tenantRow t).html (tenantNodes t) := by
  refine Template.shows .nil ?_
  simp only [tenantRow, tenantNodes, div, plainDiv, bold, shown, lit_bytes]
  rfl

theorem shows_tenantOption (t : TenantItem) :
    Shows (tenantOption t).html (tenantOptionNodes t) := by
  refine Template.shows .nil ?_
  simp only [tenantOption, tenantOptionNodes, option, shown, lit_bytes]
  rfl

theorem shows_ownTenant (currentUser : CurrentUser) :
    Shows (ownTenant currentUser).html (ownTenantNodes currentUser) := by
  refine Template.shows .nil ?_
  simp only [ownTenant, ownTenantNodes, option, lit_bytes]
  rfl

theorem shows_domainRow (currentUser : Option CurrentUser) (d : DomainItem) :
    Shows (domainRow currentUser d).html (domainNodes currentUser d) := by
  refine Template.shows (.cons (shows_deleteButton _ d.id (by decide) (by decide) (by decide)
    (by decide)) .nil) ?_
  simp only [domainRow, domainNodes, button, call, div, plainDiv, bold, shown, lit_bytes]
  rfl

theorem deletionCall_eq (u : UserItem) :
    deletionCall u = lit "setDeletionAccess(" ++ numberText u.id ++ lit "," ++ lit " " ++
      (flag !u.deletionAccess).val ++ lit ")" := by
  have hcomma : lit ", " = lit "," ++ lit " " := by decide
  rw [deletionCall, hcomma]
  simp only [List.append_assoc]

theorem shows_deletionToggle (currentUser : CurrentUser) (u : UserItem) :
    Shows (deletionToggle currentUser u).html (deletionNodes currentUser u) := by
  unfold deletionToggle deletionNodes
  rw [deletionCall_eq]
  split
  · refine Template.shows .nil ?_
    simp only [button, lit_bytes]
    rfl
  · exact .nil

theorem shows_customerRow (currentUser : CurrentUser) (u : UserItem) :
    Shows (customerRow currentUser u).html (customerNodes currentUser u) := by
  refine Template.shows (.cons (shows_deletionToggle currentUser u) .nil) ?_
  simp only [customerRow, customerNodes, button, call, div, plainDiv, bold, shown, lit_bytes]
  rfl

theorem shows_auditRow (locale : LocaleText) (e : AuditItem) :
    Shows (auditRow locale e).html (auditNodes locale e) := by
  refine Template.shows .nil ?_
  simp only [auditRow, auditNodes, div, plainDiv, bold, shown, lit_bytes]
  rfl

theorem shows_breakdownCell (x : PointItem) :
    Shows (breakdownCell x).html (breakdownNodes x) := by
  refine Template.shows .nil ?_
  simp only [breakdownCell, breakdownNodes, figure, plainDiv, bold, shown, lit_bytes]
  rfl

theorem shows_clickRow (locale : LocaleText) (x : ClickItem) :
    Shows (clickRow locale x).html (clickNodes locale x) := by
  refine Template.shows .nil ?_
  simp only [clickRow, clickNodes, div, plainDiv, bold, shown, lit_bytes]
  rfl

/-- The names of the figures are the program's own. -/
theorem shows_statCell {e : Str × ℤ} (h : ∀ b ∈ spaced e.1, inert b = true) :
    Shows (statCell e).html (statNodes e) := by
  have hpieces : Shows (Template.html
      [.markup (lit "<div><b>"), .plain (number e.2), .markup (lit "</b><span>"),
        .plain ⟨spaced e.1, h⟩, .markup (lit "</span></div>")]) (statNodes e) := by
    refine Template.shows .nil ?_
    simp only [statNodes, figure, plainDiv, bold, lit_bytes]
    rfl
  simpa [statCell, Template.html, Piece.text] using hpieces

/-! ## The lists -/

inductive View where
  | homeLinks (xs : List LinkItem)
  | links (currentUser : Option CurrentUser) (xs : List LinkItem)
  | keys (currentUser : Option CurrentUser) (xs : List KeyItem)
  | tenants (xs : List TenantItem)
  | tenantOptions (currentUser : CurrentUser) (tenantCache : List TenantItem)
  | domains (currentUser : Option CurrentUser) (xs : List DomainItem)
  | customers (currentUser : CurrentUser) (xs : List UserItem)
  | auditEvents (xs : List AuditItem)
  | breakdown (xs : List PointItem)
  | clicks (xs : List ClickItem)
  | stats (a : Overview.Analytics)

def View.html (locale : LocaleText) : View → Str
  | .homeLinks xs => DashboardViews.homeLinks xs
  | .links currentUser xs => DashboardViews.links locale currentUser xs
  | .keys currentUser xs => DashboardViews.keys locale currentUser xs
  | .tenants xs => DashboardViews.tenants xs
  | .tenantOptions currentUser xs => DashboardViews.tenantOptions currentUser xs
  | .domains currentUser xs => DashboardViews.domains currentUser xs
  | .customers currentUser xs => DashboardViews.customers currentUser xs
  | .auditEvents xs => DashboardViews.auditEvents locale xs
  | .breakdown xs => DashboardViews.breakdown xs
  | .clicks xs => DashboardViews.clicks locale xs
  | .stats a => DashboardViews.stats a

/-- The nodes of the rows, or what stands for none. -/
def listNodes {α : Type} (nodes : α → List Node) (xs : List α) (fallback : List Node) : List Node :=
  if xs.isEmpty then fallback else xs.flatMap nodes

def noLinks : List Node := empty (lit "No links yet. Create first link above.")

def View.nodes (locale : LocaleText) : View → List Node
  | .homeLinks xs => listNodes homeLinkNodes xs noLinks
  | .links currentUser xs => listNodes (linkNodes locale currentUser) xs noLinks
  | .keys currentUser xs => listNodes (keyNodes locale currentUser) xs (empty (lit "No API keys."))
  | .tenants xs => listNodes tenantNodes xs (empty (lit "No departments."))
  | .tenantOptions currentUser xs => tenantOptionsNodes currentUser xs
  | .domains currentUser xs =>
    listNodes (domainNodes currentUser) xs (empty (lit "No custom domains."))
  | .customers currentUser xs =>
    listNodes (customerNodes currentUser) xs (empty (lit "No matching users."))
  | .auditEvents xs => listNodes (auditNodes locale) xs (empty (lit "No matching audit events."))
  | .breakdown xs => (xs.take 6).flatMap breakdownNodes
  | .clicks xs => listNodes (clickNodes locale) xs (empty (lit "No click events yet."))
  | .stats a => listNodes statNodes (statEntries a) [figure 0 (.text (lit "No activity yet"))]

/-- The links whose addresses a list shows. -/
def View.shownLinks : View → List LinkItem
  | .homeLinks xs => xs
  | .links _ xs => xs
  | _ => []

theorem lit_ne_nil {s : String} (h : s ≠ "") : lit s ≠ [] := by
  intro hnil
  rw [lit_bytes] at hnil
  apply h
  apply String.toByteArray_inj.mp
  apply ByteArray.ext
  exact Array.toList_eq_nil_iff.mp hnil

theorem html_ne_nil {s : String} (h : s ≠ "") (t : Template) :
    Template.html (.markup (lit s) :: t) ≠ [] := by
  intro hnil
  rw [Template.html, List.flatMap_cons] at hnil
  exact lit_ne_nil h (List.append_eq_nil_iff.mp hnil).1

theorem shows_list {α : Type} {row : α → Template} {nodes : α → List Node} {xs : List α}
    {fallback : Str} {other : List Node} (hrow : ∀ x ∈ xs, Shows (row x).html (nodes x))
    (hne : ∀ x, (row x).html ≠ []) (hother : Shows fallback other) :
    Shows (textOr (rows row xs) fallback) (listNodes nodes xs other) := by
  cases xs with
  | nil => exact hother
  | cons x xs =>
    have hrows : rows row (x :: xs) ≠ [] := by
      intro hnil
      exact hne x (List.append_eq_nil_iff.mp hnil).1
    rw [textOr, if_neg hrows]
    exact Shows.flatMap hrow

theorem inert_statEntries {a : Overview.Analytics} {e : Str × ℤ} (h : e ∈ statEntries a) :
    ∀ b ∈ spaced e.1, inert b = true := by
  have hnames : ∀ k ∈ [lit "total_links", lit "total_clicks", lit "today_clicks",
      lit "total_tenants", lit "total_users"], ∀ b ∈ spaced k, inert b = true := by
    decide
  apply hnames
  have hmem := List.mem_map_of_mem (f := Prod.fst) (List.mem_of_mem_filter h)
  exact hmem

theorem View.shows (locale : LocaleText) (v : View) : Shows (v.html locale) (v.nodes locale) := by
  cases v with
  | homeLinks xs =>
    refine shows_list (fun x _ => shows_homeLinkRow x) (fun x => html_ne_nil (by simp) _) ?_
    simp only [noLinks, empty, div, lit_bytes]
    rfl
  | links currentUser xs =>
    refine shows_list (fun x _ => shows_linkRow locale currentUser x)
      (fun x => html_ne_nil (by simp) _) ?_
    simp only [noLinks, empty, div, lit_bytes]
    rfl
  | keys currentUser xs =>
    refine shows_list (fun k _ => shows_keyRow locale currentUser k)
      (fun k => html_ne_nil (by simp) _) ?_
    simp only [empty, div, lit_bytes]
    rfl
  | tenants xs =>
    refine shows_list (fun t _ => shows_tenantRow t) (fun t => html_ne_nil (by simp) _) ?_
    simp only [empty, div, lit_bytes]
    rfl
  | tenantOptions currentUser xs =>
    unfold View.html View.nodes DashboardViews.tenantOptions tenantOptionsNodes
    dsimp only
    split
    · exact shows_ownTenant currentUser
    · have hfirst : Shows (lit "<option value=\"\">select department</option>")
          [option [] [.text (lit "select department")]] := by
        simp only [option, lit_bytes]
        rfl
      exact hfirst.append (Shows.flatMap fun t _ => shows_tenantOption t)
  | domains currentUser xs =>
    refine shows_list (fun d _ => shows_domainRow currentUser d)
      (fun d => html_ne_nil (by simp) _) ?_
    simp only [empty, div, lit_bytes]
    rfl
  | customers currentUser xs =>
    refine shows_list (fun u _ => shows_customerRow currentUser u)
      (fun u => html_ne_nil (by simp) _) ?_
    simp only [empty, div, lit_bytes]
    rfl
  | auditEvents xs =>
    refine shows_list (fun e _ => shows_auditRow locale e) (fun e => html_ne_nil (by simp) _) ?_
    simp only [empty, div, lit_bytes]
    rfl
  | breakdown xs => exact Shows.flatMap fun x _ => shows_breakdownCell x
  | clicks xs =>
    refine shows_list (fun x _ => shows_clickRow locale x) (fun x => html_ne_nil (by simp) _) ?_
    simp only [empty, div, lit_bytes]
    rfl
  | stats a =>
    refine shows_list (fun e he => shows_statCell (inert_statEntries he))
      (fun e => html_ne_nil (by simp) _) ?_
    have hzero : (numberText 0) = lit "0" := by decide
    simp only [figure, plainDiv, bold, hzero, lit_bytes]
    rfl

/-! ## What the documents can do -/

def functions : List Str :=
  [lit "openLinkReport", lit "qrForLink", lit "editLink", lit "delLink", lit "delKey",
    lit "verifyDomain", lit "delDomain", lit "openUserReport"]

/-- The scripts that the dashboard is meant to run. -/
inductive Call : Str → Prop where
  | onNumber {f : Str} (known : f ∈ functions) (n : ℤ) : Call (call f n)
  | deletion (u : UserItem) : Call (deletionCall u)
  | toggle : Call (lit "toggleTargetURL(this)")

/-- The nodes run nothing else, and their addresses are short URLs of the links. -/
structure Sanctioned (xs : List LinkItem) (nodes : List Node) : Prop where
  calls : ∀ s ∈ Node.valuesAll isHandler nodes, Call s
  addresses : ∀ s ∈ Node.valuesAll isAddress nodes, ∃ x ∈ xs, s = valueOf x.shortUrl

section

variable {xs ys : List LinkItem}

theorem sanctioned_of_values {nodes : List Node} (calls addresses : List Str)
    (hcalls : Node.valuesAll isHandler nodes = calls)
    (haddresses : Node.valuesAll isAddress nodes = addresses) (hcall : ∀ s ∈ calls, Call s)
    (haddress : ∀ s ∈ addresses, ∃ x ∈ xs, s = valueOf x.shortUrl) : Sanctioned xs nodes :=
  ⟨hcalls ▸ hcall, haddresses ▸ haddress⟩

theorem Sanctioned.flatMap {α : Type} {nodes : α → List Node} {items : List α}
    (h : ∀ a ∈ items, Sanctioned xs (nodes a)) : Sanctioned xs (items.flatMap nodes) := by
  constructor
  · intro s hs
    obtain ⟨a, ha, hmem⟩ := mem_valuesAll_flatMap hs
    exact (h a ha).calls s hmem
  · intro s hs
    obtain ⟨a, ha, hmem⟩ := mem_valuesAll_flatMap hs
    exact (h a ha).addresses s hmem

/-- Nodes without scripts and addresses. -/
theorem sanctioned_quiet {nodes : List Node} (hcalls : Node.valuesAll isHandler nodes = [])
    (haddresses : Node.valuesAll isAddress nodes = []) : Sanctioned xs nodes :=
  sanctioned_of_values [] [] hcalls haddresses (fun _ h => absurd h List.not_mem_nil)
    fun _ h => absurd h List.not_mem_nil

theorem sanctioned_list {α : Type} {nodes : α → List Node} {items : List α} {other : List Node}
    (h : ∀ a ∈ items, Sanctioned xs (nodes a)) (hcalls : Node.valuesAll isHandler other = [])
    (haddresses : Node.valuesAll isAddress other = []) :
    Sanctioned xs (listNodes nodes items other) := by
  unfold listNodes
  split
  · exact sanctioned_quiet hcalls haddresses
  · exact .flatMap h

theorem sanctioned_homeLink {x : LinkItem} (hx : x ∈ xs) : Sanctioned xs (homeLinkNodes x) := by
  have hcalls : Node.valuesAll isHandler (homeLinkNodes x) =
      [call (lit "openLinkReport") x.id, call (lit "qrForLink") x.id] := by
    rfl
  have haddresses : Node.valuesAll isAddress (homeLinkNodes x) = [valueOf x.shortUrl] := by
    rfl
  refine sanctioned_of_values _ _ hcalls haddresses ?_ ?_
  · intro s hs
    rcases List.mem_pair.mp hs with rfl | rfl
    · exact .onNumber (by decide) x.id
    · exact .onNumber (by decide) x.id
  · intro s hs
    exact ⟨x, hx, List.mem_singleton.mp hs⟩

theorem sanctioned_creator (x : LinkItem) : Sanctioned xs (creatorNodes x) := by
  unfold creatorNodes
  split
  · exact sanctioned_quiet rfl rfl
  · exact sanctioned_quiet rfl rfl

/-- One button that calls a function for a number. -/
theorem sanctioned_button {f kind label : Str} (known : f ∈ functions) (n : ℤ) :
    Sanctioned xs [button kind (call f n) label] := by
  refine sanctioned_of_values [call f n] [] rfl rfl ?_ ?_
  · intro s hs
    rw [List.mem_singleton.mp hs]
    exact .onNumber known n
  · exact fun _ h => absurd h List.not_mem_nil

theorem sanctioned_edit (currentUser : Option CurrentUser) (x : LinkItem) :
    Sanctioned xs (editNodes currentUser x) := by
  unfold editNodes
  split
  · exact sanctioned_button (by decide) x.id
  · exact sanctioned_quiet rfl rfl

theorem sanctioned_delete (allowed : Bool) {f : Str} (known : f ∈ functions) (id : ℤ)
    (label locked why : Str) : Sanctioned xs (deleteNodes allowed f id label locked why) := by
  unfold deleteNodes
  split
  · exact sanctioned_button known id
  · exact sanctioned_quiet rfl rfl

theorem sanctioned_deleteLink (currentUser : Option CurrentUser) (x : LinkItem) :
    Sanctioned xs (deleteLinkNodes currentUser x) := by
  unfold deleteLinkNodes
  split
  · exact sanctioned_delete _ (by decide) x.id _ _ _
  · exact sanctioned_quiet rfl rfl

theorem sanctioned_link (locale : LocaleText) (currentUser : Option CurrentUser) {x : LinkItem}
    (hx : x ∈ xs) : Sanctioned xs (linkNodes locale currentUser x) := by
  have hcreator := @sanctioned_creator xs x
  have hedit := @sanctioned_edit xs currentUser x
  have hdelete := @sanctioned_deleteLink xs currentUser x
  have hcalls : Node.valuesAll isHandler (linkNodes locale currentUser x) =
      ((lit "toggleTargetURL(this)" :: (Node.valuesAll isHandler (creatorNodes x) ++ [])) ++
        call (lit "openLinkReport") x.id :: (Node.valuesAll isHandler (editNodes currentUser x) ++
          call (lit "qrForLink") x.id ::
            (Node.valuesAll isHandler (deleteLinkNodes currentUser x) ++ []))) ++ [] := by
    rfl
  have haddresses : Node.valuesAll isAddress (linkNodes locale currentUser x) =
      ((valueOf x.shortUrl :: (Node.valuesAll isAddress (creatorNodes x) ++ [])) ++
        (Node.valuesAll isAddress (editNodes currentUser x) ++
          (Node.valuesAll isAddress (deleteLinkNodes currentUser x) ++ []))) ++ [] := by
    rfl
  refine sanctioned_of_values _ _ hcalls haddresses ?_ ?_
  · intro s hs
    simp only [List.append_nil, List.mem_append, List.mem_cons] at hs
    rcases hs with (rfl | hs) | rfl | hs | rfl | hs
    · exact .toggle
    · exact hcreator.calls s hs
    · exact .onNumber (by decide) x.id
    · exact hedit.calls s hs
    · exact .onNumber (by decide) x.id
    · exact hdelete.calls s hs
  · intro s hs
    simp only [List.append_nil, List.mem_append, List.mem_cons] at hs
    rcases hs with (rfl | hs) | hs | hs
    · exact ⟨x, hx, rfl⟩
    · exact hcreator.addresses s hs
    · exact hedit.addresses s hs
    · exact hdelete.addresses s hs

theorem sanctioned_key (locale : LocaleText) (currentUser : Option CurrentUser) (k : KeyItem) :
    Sanctioned xs (keyNodes locale currentUser k) := by
  have hdelete := @sanctioned_delete xs (canDelete currentUser) (lit "delKey") (by decide) k.id
    (lit "Revoke") (lit "Revoke locked") (lit "Deletion access required")
  have hvalues : ∀ p, p (lit "class") = false →
      Node.valuesAll p (keyNodes locale currentUser k) =
        (Node.valuesAll p (deleteNodes (canDelete currentUser) (lit "delKey") k.id (lit "Revoke")
          (lit "Revoke locked") (lit "Deletion access required")) ++ []) ++ [] := by
    intro p hp
    simp [keyNodes, div, plainDiv, bold, shown, Node.valuesAll, Node.values, chosen, hp]
  constructor
  · intro s hs
    rw [hvalues isHandler (by decide), List.append_nil, List.append_nil] at hs
    exact hdelete.calls s hs
  · intro s hs
    rw [hvalues isAddress (by decide), List.append_nil, List.append_nil] at hs
    exact hdelete.addresses s hs

theorem sanctioned_domain (currentUser : Option CurrentUser) (d : DomainItem) :
    Sanctioned xs (domainNodes currentUser d) := by
  have hdelete := @sanctioned_delete xs (canDelete currentUser) (lit "delDomain") (by decide) d.id
    (lit "Delete") (lit "Delete locked") (lit "Deletion access required")
  have hcalls : Node.valuesAll isHandler (domainNodes currentUser d) =
      (call (lit "verifyDomain") d.id :: (Node.valuesAll isHandler
        (deleteNodes (canDelete currentUser) (lit "delDomain") d.id (lit "Delete")
          (lit "Delete locked") (lit "Deletion access required")) ++ [])) ++ [] := by
    rfl
  have haddresses : Node.valuesAll isAddress (domainNodes currentUser d) =
      (Node.valuesAll isAddress (deleteNodes (canDelete currentUser) (lit "delDomain") d.id
        (lit "Delete") (lit "Delete locked") (lit "Deletion access required")) ++ []) ++ [] := by
    rfl
  refine sanctioned_of_values _ _ hcalls haddresses ?_ ?_
  · intro s hs
    simp only [List.append_nil, List.mem_cons] at hs
    rcases hs with rfl | hs
    · exact .onNumber (by decide) d.id
    · exact hdelete.calls s hs
  · intro s hs
    simp only [List.append_nil] at hs
    exact hdelete.addresses s hs

theorem sanctioned_deletion (currentUser : CurrentUser) (u : UserItem) :
    Sanctioned xs (deletionNodes currentUser u) := by
  unfold deletionNodes
  split
  · refine sanctioned_of_values [deletionCall u] [] rfl rfl ?_ ?_
    · intro s hs
      rw [List.mem_singleton.mp hs]
      exact .deletion u
    · exact fun _ h => absurd h List.not_mem_nil
  · exact sanctioned_quiet rfl rfl

theorem sanctioned_customer (currentUser : CurrentUser) (u : UserItem) :
    Sanctioned xs (customerNodes currentUser u) := by
  have hdeletion := @sanctioned_deletion xs currentUser u
  have hcalls : Node.valuesAll isHandler (customerNodes currentUser u) =
      (call (lit "openUserReport") u.id ::
        (Node.valuesAll isHandler (deletionNodes currentUser u) ++ [])) ++ [] := by
    rfl
  have haddresses : Node.valuesAll isAddress (customerNodes currentUser u) =
      (Node.valuesAll isAddress (deletionNodes currentUser u) ++ []) ++ [] := by
    rfl
  refine sanctioned_of_values _ _ hcalls haddresses ?_ ?_
  · intro s hs
    simp only [List.append_nil, List.mem_cons] at hs
    rcases hs with rfl | hs
    · exact .onNumber (by decide) u.id
    · exact hdeletion.calls s hs
  · intro s hs
    simp only [List.append_nil] at hs
    exact hdeletion.addresses s hs

end

theorem View.sanctioned (locale : LocaleText) (v : View) :
    Sanctioned v.shownLinks (v.nodes locale) := by
  cases v with
  | homeLinks xs => exact sanctioned_list (fun x hx => sanctioned_homeLink hx) rfl rfl
  | links currentUser xs =>
    exact sanctioned_list (fun x hx => sanctioned_link locale currentUser hx) rfl rfl
  | keys currentUser xs =>
    exact sanctioned_list (fun k _ => sanctioned_key locale currentUser k) rfl rfl
  | tenants xs => exact sanctioned_list (fun t _ => sanctioned_quiet rfl rfl) rfl rfl
  | tenantOptions currentUser xs =>
    unfold View.nodes tenantOptionsNodes
    dsimp only
    split
    · exact sanctioned_quiet rfl rfl
    · have hrows := @Sanctioned.flatMap [] _ tenantOptionNodes xs fun t _ =>
        sanctioned_quiet rfl rfl
      exact ⟨hrows.calls, hrows.addresses⟩
  | domains currentUser xs =>
    exact sanctioned_list (fun d _ => sanctioned_domain currentUser d) rfl rfl
  | customers currentUser xs =>
    exact sanctioned_list (fun u _ => sanctioned_customer currentUser u) rfl rfl
  | auditEvents xs => exact sanctioned_list (fun e _ => sanctioned_quiet rfl rfl) rfl rfl
  | breakdown xs => exact .flatMap fun x _ => sanctioned_quiet rfl rfl
  | clicks xs => exact sanctioned_list (fun x _ => sanctioned_quiet rfl rfl) rfl rfl
  | stats a => exact sanctioned_list (fun e _ => sanctioned_quiet rfl rfl) rfl rfl

/-- Whatever the API answers, the markup of each list is read as its document: without elements
that hold scripts, with no script but the program's calls for the number of a row, and with no
address but the short URLs of the links. -/
theorem lists_read_back (locale : LocaleText) (v : View) :
    ∃ tokens, Reads (v.html locale) tokens ∧ tokens = Node.tokensAll (v.nodes locale) [] ∧
      Tame tokens ∧ (∀ s ∈ handlers tokens, Call s) ∧
      ∀ s ∈ addresses tokens, ∃ x ∈ v.shownLinks, s = valueOf x.shortUrl := by
  have hshows := v.shows locale
  have hsanctioned := v.sanctioned locale
  refine ⟨_, hshows, rfl, hshows.tame, ?_, ?_⟩
  · rw [handlers_tokensAll]
    exact hsanctioned.calls
  · rw [addresses_tokensAll]
    exact hsanctioned.addresses

end DashboardDocuments
