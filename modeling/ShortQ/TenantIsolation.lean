import ShortQ.KeyAuthority

/-! # Tenants apart

What belongs to a tenant stays as it is, whatever those do who are neither its members nor
superadmins. -/
namespace TenantIsolation

open AccountRows
open AdminHandlers
open AuditLog
open AuditedHandlers
open GoText
open Hosts
open LabelledRuns
open LinkCalls
open LinkEdits (Patch)
open LinkHandlers
open LinkLineage
open LinkScopes
open LinkStore
open Models
open RowTable
open Schema
open TenantDomains
open Transaction

/-! ## What a tenant has -/

def links (t : ℤ) (db : Database) : List LinkRow := db.links.rows.filter (·.tenantId = some t)

def domains (t : ℤ) (s : Domains) : List DomainRow := s.rows.filter (·.tenantId = t)

def users (t : ℤ) (s : Accounts) : List UserRow := s.users.rows.filter (·.tenantId = some t)

def keys (s : Accounts) (u : UserRow) : List KeyRow := s.keys.rows.filter (·.userId = u.id)

structure Holdings where
  links : List LinkRow
  geoTargets : List (List GeoRow)
  domains : List DomainRow
  users : List UserRow
  keys : List (List KeyRow)

def holdings (t : ℤ) (w : World) : Holdings where
  links := links t w.db
  geoTargets := (links t w.db).map fun r => geoRows w.db r.id
  domains := domains t w.domains
  users := users t w.accounts
  keys := (users t w.accounts).map (keys w.accounts)

/-- Neither a superadmin nor a member, and no owner of a link of the tenant: whoever moves to
another tenant keeps the links they made. -/
structure Outsider (t : ℤ) (w : World) (c : Caller) : Prop where
  role : c.user.role ≠ .superadmin
  tenant : c.user.tenantId ≠ some t
  owner : ∀ r ∈ links t w.db, r.userId ≠ c.user.id
  member : ∀ u ∈ users t w.accounts, u.id ≠ c.principal.actual.id

theorem Outsider.of_holdings {t : ℤ} {a b : World} {c : Caller} (h : Outsider t a c)
    (heq : holdings t b = holdings t a) : Outsider t b c where
  role := h.role
  tenant := h.tenant
  owner := by
    have hlinks : links t b.db = links t a.db := congrArg Holdings.links heq
    rw [hlinks]
    exact h.owner
  member := by
    have husers : users t b.accounts = users t a.accounts := congrArg Holdings.users heq
    rw [husers]
    exact h.member

theorem Outsider.not_manage {t : ℤ} {w : World} {c : Caller} (h : Outsider t w c) {r : LinkRow}
    (hr : r ∈ links t w.db) : ¬ Manage c.user r := by
  intro hmanage
  have htenant : r.tenantId = some t := by simpa using (List.mem_filter.mp hr).2
  unfold Manage at hmanage
  cases hrole : c.user.role with
  | superadmin => exact h.role hrole
  | tenant =>
    rw [hrole] at hmanage
    exact h.tenant (hmanage.symm.trans htenant)
  | customer =>
    rw [hrole] at hmanage
    exact h.owner r hr hmanage

/-! ## Links -/

/-- Equal keys in the same order, and equal rows wherever the keys are equal. -/
theorem eq_of_map_eq {ρ κ : Type*} {key : ρ → κ} {l m : List ρ} (h : l.map key = m.map key)
    (hinj : ∀ a ∈ l, ∀ b ∈ m, key a = key b → a = b) : l = m := by
  induction l generalizing m with
  | nil => exact (List.map_eq_nil_iff.mp h.symm).symm
  | cons a l ih =>
    cases m with
    | nil => cases h
    | cons b m =>
      obtain ⟨hhead, htail⟩ := List.cons.inj h
      rw [hinj a List.mem_cons_self b List.mem_cons_self hhead,
        ih htail fun x hx y hy => hinj x (List.mem_cons_of_mem a hx) y (List.mem_cons_of_mem b hy)]

/-- The rows of a tenant that are all still there are the rows of the tenant. -/
theorem links_of_grown {t : ℤ} {u : User} {a b : Database} (hgrown : Grown u a b)
    (htenant : u.tenantId ≠ some t) (hkept : ∀ r ∈ links t a, r ∈ b.links.rows) :
    links t b = links t a := by
  obtain ⟨fresh, hstems, howned⟩ := hgrown
  have hselect (db : Database) : (links t db).map stem =
      (db.links.rows.map stem).filter fun k => k.2.2.2 = some t := by
    rw [List.filter_map]
    rfl
  refine @eq_of_map_eq _ _ stem _ _ ?_ fun r hr r' hr' heq => ?_
  · rw [hselect, hselect, hstems, List.filter_append]
    have hnone : fresh.filter (fun k => k.2.2.2 = some t) = [] := by
      refine List.filter_eq_nil_iff.mpr fun k hk => ?_
      rw [howned k hk, decide_eq_true_eq]
      exact htenant
    rw [hnone, List.append_nil]
  · have hid : r.id = r'.id := congrArg Prod.fst heq
    exact b.links.eq_of_clash linkClash_symm (List.mem_filter.mp hr).1 (hkept r' hr') (Or.inl hid)

theorem holdings_of_links {t : ℤ} {w : World} {db : Database} (h : links t db = links t w.db)
    (hgeo : ∀ r ∈ links t w.db, geoRows db r.id = geoRows w.db r.id) :
    holdings t { w with db := db } = holdings t w := by
  simp only [holdings, Holdings.mk.injEq, and_true]
  refine ⟨h, ?_⟩
  rw [h]
  exact List.map_congr_left hgeo

theorem holdings_write {t : ℤ} {w : World} {c : Caller} (h : Outsider t w c) (io : Script)
    (call : Call) : holdings t { w with db := (call.write io w.db c.user).2 } = holdings t w := by
  have huntouched : ∀ r ∈ links t w.db, Untouched w.db (call.write io w.db c.user).2 r :=
    fun r hr => call.untouched io w.db c.user (List.mem_filter.mp hr).1 (h.not_manage hr)
  apply holdings_of_links
  · exact links_of_grown (grown_call call io w.db c.user) h.tenant fun r hr => (huntouched r hr).1
  · exact fun r hr => (huntouched r hr).2

theorem holdings_run {t : ℤ} {w w' : World} {c : Caller} {calls : Calls} {call : Call}
    {result : Except Err (List Link)} (h : Outsider t w c)
    (hrun : w.run c calls call = (result, w')) : holdings t w' = holdings t w := by
  obtain ⟨-, rfl⟩ := Prod.mk.inj hrun
  rw [run_database]
  exact holdings_write h calls.io call

/-- A PATCH that gets as far as its write is one of the calls. -/
theorem holdings_patch {t : ℤ} {w : World} {c : Caller} (h : Outsider t w c) (io : Script)
    {p : Patch} (hp : p.user = c.user) (updates : List LinkUpdate) :
    holdings t { w with db := (p.write io w.db updates).2 } = holdings t w := by
  unfold Patch.write
  rw [hp]
  split
  · rename_i id update _
    exact holdings_write h io
      (.updateLink id update.link update.passwordHash update.passwordChanged)
  · rfl
  · exact holdings_write h io (.updateLinksBulk _)

/-! ## Domains -/

/-- The rows an administrator may name are those of the own tenant. -/
theorem scope_elsewhere {t : ℤ} {u : User} {scope : DomainRow → Bool} {d : DomainRow}
    (h : domainScope u = some scope) (hrole : u.role ≠ .superadmin)
    (htenant : u.tenantId ≠ some t) (hd : scope d = true) : d.tenantId ≠ t := by
  unfold domainScope at h
  split at h
  · rename_i heq
    exact absurd heq hrole
  · rename_i own _ howner
    cases h
    rw [decide_eq_true_eq] at hd
    intro heq
    rw [howner, ← hd, heq] at htenant
    exact htenant rfl
  · cases h

theorem domains_statement {t : ℤ} {io : Script} {s : Domains} {result : Except Err Domains}
    (h : ∀ after, result = .ok after → domains t after = domains t s) :
    domains t (statement io s result).2 = domains t s := by
  rcases statement_state io s result with heq | ⟨after, hresult, heq⟩
  · rw [heq]
  · rw [heq]
    exact h after hresult

theorem domains_createTenantDomain {t : ℤ} (unicode : Unicode) (s : Domains) {u : User}
    (tenantId : ℤ) (domain token : Str) (hrole : u.role ≠ .superadmin)
    (htenant : u.tenantId ≠ some t) :
    domains t (createTenantDomain unicode s u tenantId domain token).2 = domains t s := by
  unfold createTenantDomain
  dsimp only
  split
  · rfl
  split
  · rfl
  rename_i hown
  split
  · rfl
  rename_i hadmin
  have hne : tenantId ≠ t := by
    rintro rfl
    have htenantRole : u.role = .tenant := by
      by_contra hne
      exact hadmin (by simp [hne, hrole])
    exact hown (by simp [htenantRole, htenant])
  split
  · split
    · split
      · rename_i table hinsert
        exact Table.filter_insert hinsert (decide_eq_false hne)
      · rfl
    · rfl
  · rfl

theorem domains_createDomainWrite {t : ℤ} (io : Script) (unicode : Unicode) (s : Domains)
    {u : User} (tenantId : ℤ) (domain token : Str) (hrole : u.role ≠ .superadmin)
    (htenant : u.tenantId ≠ some t) :
    domains t (createDomainWrite io unicode s u tenantId domain token).2 = domains t s := by
  have hcreate := domains_createTenantDomain unicode s tenantId domain token hrole htenant
  unfold createDomainWrite
  split <;> rename_i after hwrite <;> rw [hwrite] at hcreate
  · exact hcreate
  · refine domains_statement fun final hfinal => ?_
    rw [← Except.ok.inj hfinal]
    exact hcreate

theorem domains_verifyWrite {t : ℤ} (io : Script) (s : Domains) {id : ℤ}
    (h : ∀ d ∈ s.rows, d.id = id → d.tenantId ≠ t) :
    domains t (verifyWrite io s id).2 = domains t s := by
  refine domains_statement fun after hafter => ?_
  rw [← Except.ok.inj hafter]
  refine Table.filter_update (keeps_setVerified true _) (fun d hd hid => ?_) fun d => ?_
  · exact decide_eq_false (h d hd (of_decide_eq_true hid))
  · exact congrArg (fun n => decide (n = t)) (sameDomain_setVerified true _ d).2.1

theorem domains_updateTenantDomain {t : ℤ} (s : Domains) {u : User} (id : ℤ) (url : Str)
    (hrole : u.role ≠ .superadmin) (htenant : u.tenantId ≠ some t) :
    domains t (updateTenantDomain s u id url) = domains t s := by
  unfold updateTenantDomain
  split
  · rename_i scope url hscope htext
    split
    · rfl
    · refine Table.filter_update (keeps_setNotFound url) (fun d hd hp => ?_) fun d => rfl
      rw [Bool.and_eq_true] at hp
      apply decide_eq_false
      exact scope_elsewhere hscope hrole htenant hp.2
  · rfl

theorem domains_updateDomainWrite {t : ℤ} (io : Script) (s : Domains) {u : User} (id : ℤ)
    (url : Str) (hrole : u.role ≠ .superadmin) (htenant : u.tenantId ≠ some t) :
    domains t (updateDomainWrite io s u id url).2 = domains t s := by
  unfold updateDomainWrite
  split
  · rfl
  split
  · rfl
  have hstate : domains t (statement io s (if (text url).isSome then
      .ok (updateTenantDomain s u id url) else .error .schema)).2 = domains t s := by
    refine domains_statement fun after hafter => ?_
    split at hafter
    · rw [← Except.ok.inj hafter]
      exact domains_updateTenantDomain s id url hrole htenant
    · cases hafter
  split <;> rename_i hwrite <;> rw [hwrite] at hstate
  · exact hstate
  · exact hstate

theorem domains_deleteDomainWrite {t : ℤ} (io : Script) (s : Domains) {u : User} (id : ℤ)
    (hrole : u.role ≠ .superadmin) (htenant : u.tenantId ≠ some t) :
    domains t (deleteDomainWrite io s u id).2 = domains t s := by
  unfold deleteDomainWrite
  split
  · rfl
  rename_i scope hscope
  refine domains_statement fun after hafter => ?_
  rw [← Except.ok.inj hafter, deleteTenantDomain, hscope]
  refine Table.filter_delete fun d hd hp => decide_eq_false ?_
  rw [Bool.and_eq_true] at hp
  exact scope_elsewhere hscope hrole htenant hp.2

/-! ## Users and keys -/

theorem holdings_of_accounts {t : ℤ} {w : World} {a : Accounts}
    (husers : users t a = users t w.accounts)
    (hkeys : ∀ u ∈ users t w.accounts, keys a u = keys w.accounts u) :
    holdings t { w with accounts := a } = holdings t w := by
  simp only [holdings, Holdings.mk.injEq, true_and]
  refine ⟨husers, ?_⟩
  rw [husers]
  exact List.map_congr_left hkeys

theorem keys_congr {a b : Accounts} (h : b.keys = a.keys) (u : UserRow) : keys b u = keys a u := by
  rw [keys, h, keys]

/-- A new user is in the tenant of the administrator who creates it. -/
theorem place_elsewhere {t : ℤ} {n : NewUser} {u : User} {role : Role} {tenantId : Option ℤ}
    (h : n.place u = .ok (role, tenantId)) (hadmin : u.role = .tenant)
    (htenant : u.tenantId ≠ some t) : tenantId ≠ some t := by
  unfold NewUser.place at h
  simp only [hadmin, if_true] at h
  split at h
  · cases h
  split at h
  · split at h
    · cases h
    · rw [← (Prod.mk.inj (Except.ok.inj h)).2]
      exact htenant
  · cases h

theorem users_createUser {t : ℤ} (io : Script) (unicode : Unicode) (tenants : List ℤ)
    (s : Accounts) (email name : Str) (role : Role) {tenantId : Option ℤ} (hash : Option Str)
    (htenant : tenantId ≠ some t) :
    users t (createUser io unicode tenants s email name role tenantId hash).2 = users t s := by
  unfold createUser
  dsimp only
  rcases statement_state io { s with nextUserId := s.nextUserId + 1 } _ with heq |
      ⟨after, hresult, heq⟩
  · rw [heq]
    rfl
  · rw [heq]
    split at hresult
    · split at hresult
      · split at hresult
        · rename_i table hinsert
          cases hresult
          exact Table.filter_insert hinsert (decide_eq_false htenant)
        · cases hresult
      · cases hresult
    · cases hresult

theorem users_createAPIKey (io : Script) (s : Accounts) (userId : ℤ) (name hash start scope : Str) :
    (createAPIKey io s userId name hash start scope).2.users = s.users := by
  unfold createAPIKey
  dsimp only
  rcases statement_state io { s with nextKeyId := s.nextKeyId + 1 } _ with heq |
      ⟨after, hresult, heq⟩
  · rw [heq]
  · rw [heq]
    split at hresult
    · split at hresult
      · split at hresult
        · cases hresult
          rfl
        · cases hresult
      · cases hresult
    · cases hresult

theorem holdings_createAPIKey {t : ℤ} {w : World} {c : Caller} (h : Outsider t w c) (io : Script)
    (name hash start scope : Str) :
    holdings t { w with accounts := (createAPIKey io w.accounts c.principal.actual.id name hash
      start scope).2 } = holdings t w := by
  have husers : (createAPIKey io w.accounts c.principal.actual.id name hash start scope).2.users =
      w.accounts.users := users_createAPIKey io w.accounts _ name hash start scope
  refine holdings_of_accounts (by rw [users, husers, users]) fun u hu => ?_
  rcases AuditTrail.createAPIKey_cases io w.accounts c.principal.actual.id name hash start scope
    with ⟨-, hkeys⟩ | ⟨k, -, howner, -, -, -, hrows⟩
  · exact keys_congr hkeys u
  · rw [keys, hrows, List.filter_append, List.filter_singleton, howner,
      decide_eq_false (h.member u hu).symm]
    exact List.append_nil _

theorem holdings_revokeAPIKey {t : ℤ} {w : World} {c : Caller} (h : Outsider t w c) (io : Script)
    (key : ℤ) (scope : Str) :
    holdings t { w with
      accounts := (revokeAPIKey io w.accounts c.principal.actual.id key scope).2 } =
        holdings t w := by
  rw [AuditTrail.revokeAPIKey_state]
  rcases statement_state io w.accounts (.ok { w.accounts with
      keys := w.accounts.keys.update (ownKey c.principal.actual.id key scope) (revoke (nowOf io))
        (keeps_revoke (nowOf io)) }) with heq | ⟨after, hresult, heq⟩
  · rw [heq]
  · rw [heq, ← Except.ok.inj hresult]
    refine holdings_of_accounts rfl fun u hu => ?_
    refine Table.filter_update (keeps_revoke _) (fun k hk hown => decide_eq_false ?_) fun k => rfl
    unfold ownKey at hown
    simp only [Bool.and_eq_true, decide_eq_true_eq] at hown
    rw [hown.2.1]
    exact (h.member u hu).symm

/-! ## Requests -/

/-- Only a refused audit that is undone changes more than the audit log. -/
theorem holdings_conclude {t : ℤ} {a : Accounts} {calls : Calls} {out : Ending × World}
    (h : KeyAuthority.Leaves a out) : holdings t (conclude calls out).2 = holdings t out.2 := by
  cases h with
  | respond r h => rfl
  | record e ok h =>
    unfold conclude
    dsimp only
    split <;> rfl

section Handlers

variable {t : ℤ} {w : World} {c : Caller}

theorem holdings_createLink (h : Outsider t w c) (server : Server) (calls : Calls)
    (set : LinkPayload.Payload) :
    holdings t (LinkHandlers.createLink server w c calls set).2 = holdings t w := by
  unfold LinkHandlers.createLink
  split
  · rfl
  split
  · rename_i hrun
    exact holdings_run h hrun
  rename_i hrun
  split
  · exact holdings_run h hrun
  · exact holdings_run h hrun

theorem holdings_editLinks (h : Outsider t w c) (server : Server) (calls : Calls) {p : Patch}
    (hp : p.user = c.user) (texts : EditTexts) :
    holdings t (editLinks server w c calls p texts).2 = holdings t w := by
  unfold editLinks
  split
  · rfl
  split
  · rfl
  split
  · rfl
  rename_i updates _
  have hwrite := holdings_patch h calls.io hp updates
  split <;> rename_i hrun <;> rw [hrun] at hwrite
  · exact hwrite
  dsimp only
  split
  · exact hwrite
  · exact hwrite

theorem holdings_requireDelete {a i : Str} {target : Str} {rest : Ending × World}
    (h : holdings t rest.2 = holdings t w) :
    holdings t (w.requireDelete c a target i rest).2 = holdings t w := by
  unfold World.requireDelete
  split
  · exact h
  · rfl

theorem holdings_deleteLinks (h : Outsider t w c) (calls : Calls) (readBack : ReadBack)
    (call : Call) (texts : DeleteTexts) :
    holdings t (deleteLinks w c calls readBack call texts).2 = holdings t w := by
  apply holdings_requireDelete
  split
  · rfl
  split
  · rename_i hrun
    exact holdings_run h hrun
  · rename_i hrun
    exact holdings_run h hrun

theorem holdings_importLinks (h : Outsider t w c) (server : Server) (calls : Calls)
    (rows : List Link) (errorsByRow : List (ℕ × Str)) (dryRun : Bool) :
    holdings t (importLinks server w c calls rows errorsByRow dryRun).2 = holdings t w := by
  unfold importLinks
  split
  · rfl
  split
  · rfl
  split
  · rename_i hrun
    exact holdings_run h hrun
  · rename_i hrun
    exact holdings_run h hrun

theorem holdings_shortioLinks (h : Outsider t w c) (server : Server) (calls : Calls)
    (p : ShortioPayload) : holdings t (shortioLinks server w c calls p).2 = holdings t w := by
  unfold shortioLinks
  split
  · rfl
  split
  · rfl
  split
  · rename_i hrun
    have hkept := holdings_run h hrun
    dsimp only
    split
    · split
      · split
        · exact hkept
        · exact hkept
      · exact hkept
    · exact hkept
  · rename_i hrun
    split
    · exact holdings_run h hrun
    · exact holdings_run h hrun

theorem holdings_link (h : Outsider t w c) (server : Server) (calls : Calls) (q : LinkRequest) :
    holdings t (LinkHandlers.handle server w c calls q).2 = holdings t w := by
  cases q with
  | list | page | byID => rfl
  | create set => exact holdings_createLink h server calls set
  | edit link set => exact holdings_editLinks h server calls rfl _
  | bulkEdit links set => exact holdings_editLinks h server calls rfl _
  | delete link => exact holdings_deleteLinks h calls _ _ _
  | bulkDelete links set =>
    simp only [LinkHandlers.handle, bulkDelete]
    split
    · rfl
    · exact holdings_deleteLinks h calls _ _ _
  | importRows rows errorsByRow dryRun =>
    exact holdings_importLinks h server calls rows errorsByRow dryRun
  | shortioCreate p => exact holdings_shortioLinks h server calls p
  | shortioDelete path =>
    simp only [LinkHandlers.handle, shortioLinkByID]
    split
    · rfl
    · exact holdings_deleteLinks h calls _ _ _
  | shortioDeleteBulk linkIds =>
    simp only [LinkHandlers.handle, shortioDeleteBulk]
    split
    · rfl
    split
    · rfl
    · exact holdings_deleteLinks h calls _ _ _

theorem holdings_of_domains {s : Domains} (h : domains t s = domains t w.domains) :
    holdings t { w with domains := s } = holdings t w := by
  simp only [holdings, Holdings.mk.injEq, true_and, and_true]
  exact h

theorem holdings_createDomain (h : Outsider t w c) (server : Server) (calls : Calls)
    (tenantId : ℤ) (domain : Str) :
    holdings t (createDomain server w c calls tenantId domain).2 = holdings t w := by
  unfold createDomain
  dsimp only
  have hwrite := domains_createDomainWrite calls.io server.unicode w.domains
    (if c.user.role = .tenant then c.user.tenantId.getD tenantId else tenantId) domain calls.token
    h.role h.tenant
  split <;> rename_i hrun <;> rw [hrun] at hwrite
  · exact holdings_of_domains hwrite
  split
  · exact holdings_of_domains hwrite
  · exact holdings_of_domains hwrite

theorem holdings_forAdmins {rest : Ending × World} (h : holdings t rest.2 = holdings t w) :
    holdings t (forAdmins w c rest).2 = holdings t w := by
  unfold forAdmins
  split
  · rfl
  · exact h

/-- A domain that an outsider has found is of another tenant. -/
theorem found_elsewhere (h : Outsider t w c) {io : Script} {domain : ℤ} {found : DomainRow}
    (hfound : readDomain io (tenantDomainByID w.domains c.user domain) = .ok found) :
    ∀ d ∈ w.domains.rows, d.id = domain → d.tenantId ≠ t := by
  intro d hd hid
  have hread := call_ok hfound
  split at hread
  · rename_i row hrow
    unfold tenantDomainByID at hrow
    obtain ⟨scope, hscope, hfind⟩ := Option.bind_eq_some_iff.mp hrow
    obtain ⟨hmem, hp⟩ := find_row hfind
    rw [Bool.and_eq_true, decide_eq_true_eq] at hp
    obtain rfl := row_unique hd hmem (hid.trans hp.1.symm)
    exact scope_elsewhere hscope h.role h.tenant hp.2
  · cases hread

theorem holdings_verifyDomainByID (h : Outsider t w c) (server : Server) (calls : Calls)
    (domain : ℤ) : holdings t (verifyDomainByID server w c calls domain).2 = holdings t w := by
  apply holdings_forAdmins
  split
  · rfl
  rename_i found hfound
  have hwrite := domains_verifyWrite (t := t) calls.io w.domains (found_elsewhere h hfound)
  split
  · rfl
  split <;> rename_i hrun <;> rw [hrun] at hwrite
  · exact holdings_of_domains hwrite
  · exact holdings_of_domains hwrite

theorem holdings_patchDomain (h : Outsider t w c) (calls : Calls) (domain : ℤ) (url : Str) :
    holdings t (patchDomain w c calls domain url).2 = holdings t w := by
  apply holdings_forAdmins
  split
  · rfl
  have hwrite := domains_updateDomainWrite calls.io w.domains domain (trimSpace url) h.role h.tenant
  split <;> rename_i hrun <;> rw [hrun] at hwrite
  · exact holdings_of_domains hwrite
  dsimp only
  split
  · exact holdings_of_domains hwrite
  · exact holdings_of_domains hwrite

theorem holdings_deleteDomain (h : Outsider t w c) (calls : Calls) (domain : ℤ) :
    holdings t (deleteDomain w c calls domain).2 = holdings t w := by
  apply holdings_forAdmins
  apply holdings_requireDelete
  split
  · rfl
  have hwrite := domains_deleteDomainWrite calls.io w.domains domain h.role h.tenant
  split <;> rename_i hrun <;> rw [hrun] at hwrite
  · exact holdings_of_domains hwrite
  · exact holdings_of_domains hwrite

theorem holdings_customers (h : Outsider t w c) (server : Server) (calls : Calls) (n : NewUser) :
    holdings t (customers server w c calls n).2 = holdings t w := by
  unfold customers
  split
  · rfl
  rename_i hcustomer
  split
  · rfl
  rename_i role tenantId hplace
  have hadmin : c.user.role = .tenant := by
    cases hrole : c.user.role with
    | superadmin => exact absurd hrole h.role
    | tenant => rfl
    | customer => exact absurd hrole hcustomer
  have husers := users_createUser calls.io server.unicode w.domains.tenants w.accounts n.email
    n.name role calls.passwordHash (place_elsewhere hplace hadmin h.tenant)
  have hkeys := AuditTrail.keys_createUser calls.io server.unicode w.domains.tenants w.accounts
    n.email n.name role tenantId calls.passwordHash
  split
  · rfl
  split <;> rename_i hrun <;> rw [hrun] at husers hkeys
  · exact holdings_of_accounts husers fun u _ => keys_congr hkeys u
  · exact holdings_of_accounts husers fun u _ => keys_congr hkeys u

/-- The two PATCH handlers of users turn everyone away but superadmins. -/
theorem changeUser_refused (h : c.user.role ≠ .superadmin) (calls : Calls) (user : ℤ)
    (write : Option Err × Accounts) (failed : Err → Response) (action : Str) :
    changeUser w c calls user write failed action =
      (.respond (errOut 403 "superadmin only"), w) := by
  unfold changeUser
  rw [if_pos h]

theorem holdings_apiKeyByID (h : Outsider t w c) (calls : Calls) (key : ℤ) :
    holdings t (apiKeyByID w c calls key).2 = holdings t w := by
  apply holdings_requireDelete
  have hwrite := holdings_revokeAPIKey h calls.io key (keyScopeOf c)
  split <;> rename_i hrun <;> rw [hrun] at hwrite
  · exact hwrite
  · exact hwrite

/-- Here a refused audit is undone, by a revocation of the caller's own key. -/
theorem holdings_apiKeys (h : Outsider t w c) (calls : Calls) (name : Str) :
    holdings t (conclude calls (apiKeys w c calls name)).2 = holdings t w := by
  unfold apiKeys
  split
  · rfl
  dsimp only
  split
  · rfl
  split
  · rfl
  rename_i key _
  have hwrite := holdings_createAPIKey h calls.io (trimSpace name) key.hash key.start (keyScopeOf c)
  split <;> rename_i hrun <;> rw [hrun] at hwrite
  · exact hwrite
  · rename_i created accounts
    obtain ⟨log, hend | hend⟩ := KeyAuthority.conclude_record calls
      (c.event (lit "api_key.created") (lit "api_key") key.start .success none
        (some (.key (trimSpace name) key.start (keyScopeOf c))))
      ⟨201, .key created (trimSpace name) key.start (keyScopeOf c)⟩
      (revokeAfter c calls created) { w with accounts := accounts }
    · rw [hend]
      have hlater : Outsider t { w with accounts := accounts, audits := log } c :=
        h.of_holdings hwrite
      exact (holdings_revokeAPIKey hlater calls.revoke created (keyScopeOf c)).trans hwrite
    · rw [hend]
      exact hwrite

/-- No request of an outsider touches what the tenant has. -/
theorem holdings_serve (h : Outsider t w c) (server : Server) (calls : Calls) (q : AdminRequest) :
    holdings t (AdminHandlers.serve server w c calls q).2 = holdings t w := by
  unfold AdminHandlers.serve
  cases q with
  | link q =>
    exact (holdings_conclude (KeyAuthority.leaves_link server w c calls q)).trans
      (holdings_link h server calls q)
  | createUser n =>
    obtain ⟨a, -, hleaves⟩ := KeyAuthority.leaves_customers server w c calls n
    exact (holdings_conclude hleaves).trans (holdings_customers h server calls n)
  | setActive user active =>
    rw [AdminHandlers.handle, AdminHandlers.setActive, changeUser_refused h.role]
    rfl
  | setDeletionAccess user enabled =>
    rw [AdminHandlers.handle, AdminHandlers.setDeletionAccess, changeUser_refused h.role]
    rfl
  | createDomain tenantId domain =>
    have hleaves := KeyAuthority.leaves_createDomain server w c calls tenantId domain
    exact (holdings_conclude hleaves).trans (holdings_createDomain h server calls tenantId domain)
  | verifyDomain domain =>
    exact (holdings_conclude (KeyAuthority.leaves_verifyDomainByID server w c calls domain)).trans
      (holdings_verifyDomainByID h server calls domain)
  | patchDomain domain url =>
    exact (holdings_conclude (KeyAuthority.leaves_patchDomain w c calls domain url)).trans
      (holdings_patchDomain h calls domain url)
  | deleteDomain domain =>
    exact (holdings_conclude (KeyAuthority.leaves_deleteDomain w c calls domain)).trans
      (holdings_deleteDomain h calls domain)
  | createKey name => exact holdings_apiKeys h calls name
  | revokeKey key =>
    obtain ⟨a, -, hleaves⟩ := KeyAuthority.leaves_apiKeyByID w c calls key
    exact (holdings_conclude hleaves).trans (holdings_apiKeyByID h calls key)

end Handlers

/-! ## Runs -/

structure Event where
  caller : Caller
  calls : Calls
  request : AdminRequest

def next (server : Server) (w : World) (e : Event) : Option World :=
  some (AdminHandlers.serve server w e.caller e.calls e.request).2

/-- Whatever requests outsiders send, in which order and with what failures of the database, the
tenant keeps its links, their geo targets, its domains, its users and their keys, and gets none. -/
theorem tenant_isolated {server : Server} {t : ℤ} {w w' : World} {es : List Event}
    (run : Execution (next server) w es w') (h : ∀ e ∈ es, Outsider t w e.caller) :
    holdings t w' = holdings t w := by
  refine run.invariant_of (I := fun u => holdings t u = holdings t w)
    (P := fun u e => e ∈ es) rfl (fun u e v hu he hstep => ?_) fun xs e ys u hes _ => ?_
  · obtain rfl := Option.some.inj hstep
    exact (holdings_serve ((h e he).of_holdings hu) server e.calls e.request).trans hu
  · rw [hes]
    exact List.mem_append_right xs List.mem_cons_self

/-- The administrator of another tenant. -/
def stranger : Caller where
  principal := effectivePrincipal ⟨3, some 2, .tenant⟩ (lit "admin") (lit "session")
  email := lit "c@example.com"
  deletionAccess := true
  request := LinkResponses.request
  stored := by decide
  auth := by decide

def trespass : List Event :=
  [.link (.delete 1), .patchDomain 1 (lit "https://c.example/"), .deleteDomain 1,
    .createDomain 1 (lit "c.example.com"), .setActive 1 false].map
      (⟨stranger, LinkResponses.healthy, ·⟩)

theorem tenant_isolated_trespass : ∃ w,
    Execution (next LinkResponses.deployed) LinkResponses.colleagues trespass w ∧
      holdings 1 w = holdings 1 LinkResponses.colleagues ∧ links 1 w.db = [sampleLink] := by
  have houtsider : Outsider 1 LinkResponses.colleagues stranger :=
    ⟨by decide, by decide, by decide, by decide⟩
  have hrun : Execution (next LinkResponses.deployed) LinkResponses.colleagues trespass _ :=
    execution_of_replay rfl
  have hkept := tenant_isolated (t := 1) hrun fun e he => by
    obtain ⟨q, -, rfl⟩ := List.mem_map.mp he
    exact houtsider
  exact ⟨_, hrun, hkept, congrArg Holdings.links hkept⟩

end TenantIsolation
