import Mathlib.Data.List.Forall2
import ShortQ.AuditTrail
import ShortQ.Authentication
import ShortQ.LabelledRuns

/-! # What an API key can do

Whoever holds a key and nothing else stays within the authority of the key, whatever requests are
sent and in which order. -/
namespace KeyAuthority

open AccountRows
open AdminHandlers
open AuditLog
open AuditedHandlers
open Authentication
open GoText
open Hosts
open LabelledRuns
open LinkCalls
open LinkEdits (Patch)
open LinkHandlers
open LinkScopes
open Models
open RowTable
open Schema
open SignedTokens
open TenantDomains
open Transaction

/-! ## What a handler does to the keys -/

/-- The row is as before, or it was revoked and `P` allows that. -/
def Kept (P : KeyRow → Prop) (a b : KeyRow) : Prop := b = a ∨ (P a ∧ ∃ t, b = revoke t a)

/-- The keys a caller may revoke. -/
def Revocable (c : Caller) (k : KeyRow) : Prop :=
  c.user.role = .superadmin ∨ ownKey c.principal.actual.id k.id (keyScopeOf c) k = true

/-- All keys are kept, and one is new only where the caller has signed in. -/
def Tended (c : Caller) (a b : List KeyRow) : Prop :=
  ∃ kept fresh, b = kept ++ fresh ∧ List.Forall₂ (Kept (Revocable c)) a kept ∧
    (c.principal.authType ≠ lit "session" → fresh = [])

theorem kept_self (P : KeyRow → Prop) (rows : List KeyRow) : List.Forall₂ (Kept P) rows rows :=
  List.forall₂_same.mpr fun _ _ => Or.inl rfl

theorem tended_self (c : Caller) (rows : List KeyRow) : Tended c rows rows :=
  ⟨rows, [], (List.append_nil rows).symm, kept_self _ rows, fun _ => rfl⟩

theorem kept_update {P : KeyRow → Prop} {p : KeyRow → Bool} (h : ∀ r, p r = true → P r)
    (t : GoTime.Time) (rows : List KeyRow) :
    List.Forall₂ (Kept P) rows (rows.map fun r => if p r then revoke t r else r) := by
  rw [List.forall₂_map_right_iff, List.forall₂_same]
  intro r _
  by_cases hr : p r = true
  · exact Or.inr ⟨h r hr, t, if_pos hr⟩
  · exact Or.inl (if_neg hr)

/-- How a handler ends that leaves these accounts and undoes nothing. -/
inductive Leaves (a : Accounts) : Ending × World → Prop where
  | respond (r : Response) {w : World} (h : w.accounts = a) : Leaves a (.respond r, w)
  | record (e : AuditEvent) (ok : Response) {w : World} (h : w.accounts = a) :
      Leaves a (.record e ok id, w)

theorem leaves_conclude {a : Accounts} {calls : Calls} {out : Ending × World} (h : Leaves a out) :
    (conclude calls out).2.accounts = a := by
  cases h with
  | respond r h => exact h
  | record e ok h =>
    unfold conclude
    dsimp only
    split <;> exact h

theorem leaves_requireDelete {w : World} {c : Caller} {a t i : Str} {rest : Ending × World}
    (h : Leaves w.accounts rest) : Leaves w.accounts (w.requireDelete c a t i rest) := by
  unfold World.requireDelete
  split
  · exact h
  · exact .record _ _ rfl

theorem accounts_run {w w' : World} {c : Caller} {calls : Calls} {call : Call}
    {result : Except Err (List Link)} (h : w.run c calls call = (result, w')) :
    w'.accounts = w.accounts := by
  obtain ⟨-, rfl⟩ := Prod.mk.inj h
  rfl

/-! The handlers of links. -/

theorem leaves_createLink (server : Server) (w : World) (c : Caller) (calls : Calls)
    (set : LinkPayload.Payload) :
    Leaves w.accounts (LinkHandlers.createLink server w c calls set) := by
  unfold LinkHandlers.createLink
  split
  · exact .respond _ rfl
  split
  · rename_i hrun
    exact .respond _ (accounts_run hrun)
  rename_i hrun
  split
  · exact .respond _ (accounts_run hrun)
  · exact .record _ _ (accounts_run hrun)

theorem leaves_editLinks (server : Server) (w : World) (c : Caller) (calls : Calls) (p : Patch)
    (texts : EditTexts) : Leaves w.accounts (editLinks server w c calls p texts) := by
  unfold editLinks
  split
  · exact .respond _ rfl
  split
  · exact .respond _ rfl
  split
  · exact .respond _ rfl
  split
  · exact .respond _ rfl
  dsimp only
  split
  · exact .respond _ rfl
  · exact .record _ _ rfl

theorem leaves_deleteLinks (w : World) (c : Caller) (calls : Calls) (readBack : ReadBack)
    (call : Call) (texts : DeleteTexts) :
    Leaves w.accounts (deleteLinks w c calls readBack call texts) := by
  refine leaves_requireDelete ?_
  split
  · exact .respond _ rfl
  split
  · rename_i hrun
    exact .respond _ (accounts_run hrun)
  · rename_i hrun
    exact .record _ _ (accounts_run hrun)

theorem leaves_importLinks (server : Server) (w : World) (c : Caller) (calls : Calls)
    (rows : List Link) (errorsByRow : List (ℕ × Str)) (dryRun : Bool) :
    Leaves w.accounts (importLinks server w c calls rows errorsByRow dryRun) := by
  unfold importLinks
  split
  · exact .respond _ rfl
  split
  · exact .respond _ rfl
  split
  · rename_i hrun
    exact .respond _ (accounts_run hrun)
  · rename_i hrun
    exact .record _ _ (accounts_run hrun)

theorem leaves_shortioLinks (server : Server) (w : World) (c : Caller) (calls : Calls)
    (p : ShortioPayload) : Leaves w.accounts (shortioLinks server w c calls p) := by
  unfold shortioLinks
  split
  · exact .respond _ rfl
  split
  · exact .respond _ rfl
  split
  · rename_i hrun
    dsimp only
    split
    · split
      · split <;> exact .respond _ (accounts_run hrun)
      · exact .respond _ (accounts_run hrun)
    · exact .respond _ (accounts_run hrun)
  · rename_i hrun
    split
    · exact .respond _ (accounts_run hrun)
    · exact .record _ _ (accounts_run hrun)

/-- Link handlers leave the accounts alone. -/
theorem leaves_link (server : Server) (w : World) (c : Caller) (calls : Calls) (q : LinkRequest) :
    Leaves w.accounts (LinkHandlers.handle server w c calls q) := by
  cases q with
  | list | page | byID => exact .respond _ rfl
  | create set => exact leaves_createLink server w c calls set
  | edit link set => exact leaves_editLinks server w c calls _ _
  | bulkEdit links set => exact leaves_editLinks server w c calls _ _
  | delete link => exact leaves_deleteLinks w c calls _ _ _
  | bulkDelete links set =>
    simp only [LinkHandlers.handle, bulkDelete]
    split
    · exact .respond _ rfl
    · exact leaves_deleteLinks w c calls _ _ _
  | importRows rows errorsByRow dryRun =>
    exact leaves_importLinks server w c calls rows errorsByRow dryRun
  | shortioCreate p => exact leaves_shortioLinks server w c calls p
  | shortioDelete path =>
    simp only [LinkHandlers.handle, shortioLinkByID]
    split
    · exact .respond _ rfl
    · exact leaves_deleteLinks w c calls _ _ _
  | shortioDeleteBulk linkIds =>
    simp only [LinkHandlers.handle, shortioDeleteBulk]
    split
    · exact .respond _ rfl
    split
    · exact .respond _ rfl
    · exact leaves_deleteLinks w c calls _ _ _

/-! The handlers of domains. -/

theorem leaves_createDomain (server : Server) (w : World) (c : Caller) (calls : Calls)
    (tenantId : ℤ) (domain : Str) :
    Leaves w.accounts (createDomain server w c calls tenantId domain) := by
  unfold createDomain
  dsimp only
  split
  · exact .respond _ rfl
  split
  · exact .respond _ rfl
  · exact .record _ _ rfl

theorem leaves_forAdmins {w : World} {c : Caller} {rest : Ending × World}
    (h : Leaves w.accounts rest) : Leaves w.accounts (forAdmins w c rest) := by
  unfold forAdmins
  split
  · exact .respond _ rfl
  · exact h

theorem leaves_verifyDomainByID (server : Server) (w : World) (c : Caller) (calls : Calls)
    (domain : ℤ) : Leaves w.accounts (verifyDomainByID server w c calls domain) := by
  refine leaves_forAdmins ?_
  split
  · exact .respond _ rfl
  split
  · exact .respond _ rfl
  split
  · exact .respond _ rfl
  · exact .record _ _ rfl

theorem leaves_patchDomain (w : World) (c : Caller) (calls : Calls) (domain : ℤ) (url : Str) :
    Leaves w.accounts (patchDomain w c calls domain url) := by
  refine leaves_forAdmins ?_
  split
  · exact .respond _ rfl
  split
  · exact .respond _ rfl
  dsimp only
  split
  · exact .respond _ rfl
  · exact .record _ _ rfl

theorem leaves_deleteDomain (w : World) (c : Caller) (calls : Calls) (domain : ℤ) :
    Leaves w.accounts (deleteDomain w c calls domain) := by
  refine leaves_forAdmins (leaves_requireDelete ?_)
  split
  · exact .respond _ rfl
  split
  · exact .respond _ rfl
  · exact .record _ _ rfl

/-! The handlers of users and keys. -/

theorem kept_setUserActiveWrite {P : KeyRow → Prop} (io : Script) (s : Accounts) (user : ℤ)
    (active : Bool) (h : ∀ k : KeyRow, active = false → k.userId = user → P k) :
    List.Forall₂ (Kept P) s.keys.rows (setUserActiveWrite io s user active).2.keys.rows := by
  unfold setUserActiveWrite
  rcases inTx_state io s _ with heq | ⟨tx, hbody, heq⟩
  · rw [heq]
    exact kept_self P _
  · rw [heq]
    split at hbody
    · cases hbody
    rename_i tx₁ hcall
    have hok := call_ok hcall
    split at hok
    · cases hok
    cases hok
    split at hbody
    · cases hbody
      exact kept_self P _
    · rename_i hactive
      have hok := call_ok hbody
      cases hok
      refine kept_update (fun r hr => h r (Bool.eq_false_iff.mpr hactive) ?_) _ _
      rw [Bool.and_eq_true, decide_eq_true_eq] at hr
      exact hr.1

theorem kept_revokeAPIKey {P : KeyRow → Prop} (io : Script) (s : Accounts) (userId key : ℤ)
    (scope : Str) (h : ∀ k, ownKey userId key scope k = true → P k) :
    List.Forall₂ (Kept P) s.keys.rows (revokeAPIKey io s userId key scope).2.keys.rows := by
  rw [AuditTrail.revokeAPIKey_state]
  rcases statement_state io s (.ok { s with
      keys :=
        s.keys.update (ownKey userId key scope) (revoke (nowOf io)) (keeps_revoke (nowOf io)) })
    with heq | ⟨after, hresult, heq⟩
  · rw [heq]
    exact kept_self P _
  · rw [heq, ← Except.ok.inj hresult]
    exact kept_update h _ _

/-- The two PATCH handlers of users run for superadmins. -/
theorem tended_changeUser (w : World) (c : Caller) (calls : Calls) (user : ℤ)
    (write : Option Err × Accounts) (failed : Err → Response) (action : Str)
    (hwrite : c.user.role = .superadmin → Tended c w.accounts.keys.rows write.2.keys.rows) :
    Tended c w.accounts.keys.rows
      (conclude calls (changeUser w c calls user write failed action)).2.accounts.keys.rows := by
  unfold changeUser
  by_cases hrole : c.user.role = .superadmin
  · rw [if_neg (not_not.mpr hrole)]
    have hwrite := hwrite hrole
    split
    · exact tended_self c _
    split
    · exact tended_self c _
    obtain ⟨result, accounts⟩ := write
    cases result with
    | some e => exact hwrite
    | none =>
      dsimp only
      split
      · exact hwrite
      · rw [leaves_conclude (.record _ _ rfl)]
        exact hwrite
  · rw [if_pos hrole]
    exact tended_self c _

theorem tended_of_keys {c : Caller} {a b : Accounts} (h : b.keys = a.keys) :
    Tended c a.keys.rows b.keys.rows := by
  rw [h]
  exact tended_self c _

theorem leaves_customers (server : Server) (w : World) (c : Caller) (calls : Calls) (n : NewUser) :
    ∃ a, a.keys = w.accounts.keys ∧ Leaves a (customers server w c calls n) := by
  unfold customers
  split
  · exact ⟨_, rfl, .respond _ rfl⟩
  split
  · exact ⟨_, rfl, .respond _ rfl⟩
  split
  · exact ⟨_, rfl, .respond _ rfl⟩
  rename_i role tenantId _ _
  have hkeys := AuditTrail.keys_createUser calls.io server.unicode w.domains.tenants w.accounts
    n.email n.name role tenantId calls.passwordHash
  split <;> rename_i accounts hrun <;> rw [hrun] at hkeys
  · exact ⟨accounts, hkeys, .respond _ rfl⟩
  · exact ⟨accounts, hkeys, .record _ _ rfl⟩

theorem own_of_own {userId key : ℤ} {scope : Str} {k : KeyRow}
    (h : ownKey userId key scope k = true) : ownKey userId k.id scope k = true := by
  unfold ownKey at h ⊢
  rw [Bool.and_eq_true] at h
  rw [h.2, Bool.and_true, decide_eq_true_eq]

theorem leaves_apiKeyByID (w : World) (c : Caller) (calls : Calls) (key : ℤ) :
    ∃ a, List.Forall₂ (Kept (Revocable c)) w.accounts.keys.rows a.keys.rows ∧
      Leaves a (apiKeyByID w c calls key) := by
  unfold apiKeyByID World.requireDelete
  split
  · have hkept := kept_revokeAPIKey calls.io w.accounts c.principal.actual.id key (keyScopeOf c)
      (P := Revocable c) fun k hk => Or.inr (own_of_own hk)
    split <;> rename_i accounts hrun <;> rw [hrun] at hkept
    · exact ⟨accounts, hkept, .respond _ rfl⟩
    · exact ⟨accounts, hkept, .record _ _ rfl⟩
  · exact ⟨_, kept_self _ _, .record _ _ rfl⟩

/-- Keys that are tended again stay tended, where the caller has signed in. -/
theorem tended_of_kept {c : Caller} {a b fresh : List KeyRow}
    (h : List.Forall₂ (Kept (Revocable c)) (a ++ fresh) b)
    (hsession : c.principal.authType = lit "session") : Tended c a b := by
  refine ⟨b.take a.length, b.drop a.length, (List.take_append_drop _ _).symm, ?_,
    fun hne => absurd hsession hne⟩
  have htake := List.forall₂_take a.length h
  rwa [List.take_left] at htake

theorem conclude_record (calls : Calls) (e : AuditEvent) (ok : Response) (undo : World → World)
    (w : World) : ∃ log, (conclude calls (.record e ok undo, w)).2 = undo { w with audits := log } ∨
      (conclude calls (.record e ok undo, w)).2 = { w with audits := log } := by
  unfold conclude
  dsimp only
  split
  · exact ⟨_, Or.inl rfl⟩
  · exact ⟨_, Or.inr rfl⟩

theorem tended_apiKeys (w : World) (c : Caller) (calls : Calls) (name : Str) :
    Tended c w.accounts.keys.rows
      (conclude calls (apiKeys w c calls name)).2.accounts.keys.rows := by
  unfold apiKeys
  by_cases hauth : c.principal.authType = lit "session"
  · rw [if_neg (not_not.mpr hauth)]
    dsimp only
    split
    · exact tended_self c _
    split
    · exact tended_self c _
    rename_i key _
    have hcases := AuditTrail.createAPIKey_cases calls.io w.accounts c.principal.actual.id
      (trimSpace name) key.hash key.start (keyScopeOf c)
    have hrows : ∃ fresh, (createAPIKey calls.io w.accounts c.principal.actual.id (trimSpace name)
        key.hash key.start (keyScopeOf c)).2.keys.rows = w.accounts.keys.rows ++ fresh := by
      rcases hcases with ⟨-, hkeys⟩ | ⟨k, -, -, -, -, -, hrows⟩
      · exact ⟨[], by rw [hkeys, List.append_nil]⟩
      · exact ⟨[k], hrows⟩
    obtain ⟨fresh, hrows⟩ := hrows
    have hkept (b : List KeyRow) (hb : b = w.accounts.keys.rows ++ fresh) :
        List.Forall₂ (Kept (Revocable c)) (w.accounts.keys.rows ++ fresh) b := by
      rw [hb]
      exact kept_self _ _
    split <;> rename_i accounts hrun <;> rw [hrun] at hrows <;> dsimp only at hrows
    · exact tended_of_kept (hkept _ hrows) hauth
    · rename_i created
      obtain ⟨log, hend | hend⟩ := conclude_record calls
        (c.event (lit "api_key.created") (lit "api_key") key.start .success none
          (some (.key (trimSpace name) key.start (keyScopeOf c))))
        ⟨201, .key created (trimSpace name) key.start (keyScopeOf c)⟩
        (revokeAfter c calls created) { w with accounts := accounts }
      · rw [hend]
        refine @tended_of_kept c w.accounts.keys.rows _ fresh ?_ hauth
        rw [← hrows]
        exact kept_revokeAPIKey calls.revoke accounts _ _ _ fun k hk => Or.inr (own_of_own hk)
      · rw [hend]
        exact tended_of_kept (hkept _ hrows) hauth
  · rw [if_pos hauth]
    exact tended_self c _

theorem tended_of_leaves {w : World} {c : Caller} {calls : Calls} {out : Ending × World}
    (h : Leaves w.accounts out) :
    Tended c w.accounts.keys.rows (conclude calls out).2.accounts.keys.rows := by
  rw [leaves_conclude h]
  exact tended_self c _

/-- What a request behind `withAuth` does to the keys. -/
theorem tended_serve (server : Server) (w : World) (c : Caller) (calls : Calls) (q : AdminRequest) :
    Tended c w.accounts.keys.rows
      (AdminHandlers.serve server w c calls q).2.accounts.keys.rows := by
  unfold AdminHandlers.serve
  cases q with
  | link q => exact tended_of_leaves (leaves_link server w c calls q)
  | createUser n =>
    obtain ⟨a, hkeys, hleaves⟩ := leaves_customers server w c calls n
    rw [AdminHandlers.handle, leaves_conclude hleaves]
    exact tended_of_keys hkeys
  | setActive user active =>
    refine tended_changeUser w c calls user _ _ _ fun hrole => ?_
    refine ⟨_, [], (List.append_nil _).symm, ?_, fun _ => rfl⟩
    exact kept_setUserActiveWrite calls.io w.accounts user active fun _ _ _ => Or.inl hrole
  | setDeletionAccess user enabled =>
    exact tended_changeUser w c calls user _ _ _ fun _ =>
      tended_of_keys (AuditTrail.keys_setDeletionAccessWrite calls.io w.accounts user enabled)
  | createDomain tenantId domain =>
    exact tended_of_leaves (leaves_createDomain server w c calls tenantId domain)
  | verifyDomain domain => exact tended_of_leaves (leaves_verifyDomainByID server w c calls domain)
  | patchDomain domain url => exact tended_of_leaves (leaves_patchDomain w c calls domain url)
  | deleteDomain domain => exact tended_of_leaves (leaves_deleteDomain w c calls domain)
  | createKey name => exact tended_apiKeys w c calls name
  | revokeKey key =>
    obtain ⟨a, hkept, hleaves⟩ := leaves_apiKeyByID w c calls key
    rw [AdminHandlers.handle, leaves_conclude hleaves]
    exact ⟨_, [], (List.append_nil _).symm, hkept, fun _ => rfl⟩

/-! ## Keys last -/

/-- The row is as before but for its revocation. -/
structure SameKey (a b : KeyRow) : Prop where
  id : b.id = a.id
  userId : b.userId = a.userId
  keyHash : b.keyHash = a.keyHash
  scope : b.scope = a.scope

theorem SameKey.refl (k : KeyRow) : SameKey k k := ⟨rfl, rfl, rfl, rfl⟩

theorem same_of_kept {P : KeyRow → Prop} {a b : KeyRow} (h : Kept P a b) : SameKey a b := by
  rcases h with rfl | ⟨-, t, rfl⟩
  · exact .refl b
  · exact ⟨rfl, rfl, rfl, rfl⟩

/-- A key that is stored stays stored. -/
theorem exists_of_tended {c : Caller} {a b : List KeyRow} (h : Tended c a b) {k : KeyRow}
    (hk : k ∈ a) : ∃ k' ∈ b, Kept (Revocable c) k k' := by
  obtain ⟨kept, fresh, rfl, hkept, -⟩ := h
  obtain ⟨i, hi, rfl⟩ := List.mem_iff_getElem.mp hk
  have hlength := hkept.length_eq
  refine ⟨kept[i], List.mem_append_left fresh (List.getElem_mem _), ?_⟩
  exact hkept.get hi (hlength ▸ hi)

/-! ## What a request does, whoever sends it -/

def Answer.lists : Answer → Option (List APIKey)
  | .keys ks => some ks
  | _ => none

/-- A request is answered without a principal; or it completes a login; or its sender has a
session; or it is handled behind `withAuth`. -/
inductive Served (d : Deployment) (s : System) (q : Incoming) : Reply → System → Prop where
  | unseen (answer : Answer) (s' : System) (lists : Answer.lists answer = none)
      (keys : s'.world.accounts.keys = s.world.accounts.keys)
      (granted : ∀ c, .jwt c ∈ s'.granted → .jwt c ∈ s.granted) : Served d s q ⟨none, answer⟩ s'
  | login (answer : Answer) (s' : System)
      (cause : d.devAuthBypass = true ∨
        ∃ claims tenant, q.route = .microsoftCallback (some claims) tenant)
      (keys : s'.world.accounts.keys = s.world.accounts.keys) : Served d s q ⟨none, answer⟩ s'
  | session (reply : Reply) (s' : System) (sender : (userFromSession d s q).isSome)
      (keys : s'.world.accounts.keys = s.world.accounts.keys) : Served d s q reply s'
  | guarded (answer : Answer) (s' : System) {u : UserRow} {p : Principal} {c : Caller}
      (sender : withAuth d s q = .ok (u, p)) (caller : c.principal = p)
      (granted : s'.granted = s.granted)
      (lists : ∀ ks, Answer.lists answer = some ks →
        listAPIKeys q.calls.io s.world.accounts p.actual.id (keyScopeOf c) = .ok ks)
      (tended : Tended c s.world.accounts.keys.rows s'.world.accounts.keys.rows) :
      Served d s q ⟨some p, answer⟩ s'

theorem principal_of_callerOf {q : Incoming} {u : UserRow} {p : Principal} {c : Caller}
    (h : callerOf q u p = some c) : c.principal = p := by
  unfold callerOf at h
  split at h
  · cases h
    rfl
  · cases h

/-- Nobody is turned away with a list of keys. -/
theorem lists_of_refused {d : Deployment} {s : System} {q : Incoming} {answer : Answer}
    (h : withAuth d s q = .error answer) : Answer.lists answer = none := by
  unfold withAuth at h
  split at h
  · split at h
    · cases h
      rfl
    · dsimp only at h
      split at h <;> cases h
      rfl
  split at h
  · cases h
  split at h
  · cases h
    rfl
  split at h
  · cases h
    rfl
  split at h <;> cases h
  rfl

theorem served_guarded {d : Deployment} {s s' : System} {q : Incoming} {reply : Reply}
    {g : Guarded} (h : guarded d s q g = some (reply, s')) : Served d s q reply s' := by
  unfold guarded at h
  split at h
  · rename_i answer hauth
    cases h
    refine .unseen answer s ?_ rfl fun _ hc => hc
    exact lists_of_refused hauth
  · rename_i u p hauth
    obtain ⟨c, hcaller, heq⟩ := Option.map_eq_some_iff.mp h
    have hprincipal := principal_of_callerOf hcaller
    cases g with
    | read page =>
      cases heq
      exact .guarded _ _ hauth hprincipal rfl (by simp [Answer.lists]) (tended_self c _)
    | listKeys =>
      cases heq
      refine .guarded _ _ hauth hprincipal rfl (fun ks hks => ?_) (tended_self c _)
      subst hprincipal
      unfold listKeys at hks
      split at hks
      · cases hks
      · rename_i keys hlist
        rw [hlist]
        exact congrArg _ (Option.some.inj hks)
    | admin a =>
      cases heq
      exact .guarded _ _ hauth hprincipal rfl (by simp [Answer.lists])
        (tended_serve d.server s.world c q.calls a)

theorem keys_ensureSSOUser (d : Deployment) (s : System) (q : Incoming) (tenant : Except Err ℤ)
    (email name : Str) :
    (ensureSSOUser d s q tenant email name).2.keys = s.world.accounts.keys := by
  unfold ensureSSOUser
  split
  · rfl
  split
  · rfl
  split
  · rfl
  rename_i tenant
  have hkeys := AuditTrail.keys_createUser q.calls.io d.server.unicode s.world.domains.tenants
    s.world.accounts email (if trimSpace name = [] then email else name) .customer (some tenant)
    q.calls.passwordHash
  dsimp only
  split <;> rename_i hrun <;> rw [hrun] at hkeys <;> exact hkeys

theorem served_completeLogin (d : Deployment) (s : System) (q : Incoming) (tenant : Except Err ℤ)
    (email name : Str) : (completeLogin d s q tenant email name).1.principal = none ∧
      (completeLogin d s q tenant email name).2.world.accounts.keys = s.world.accounts.keys := by
  have hkeys := keys_ensureSSOUser d s q tenant email name
  unfold completeLogin
  generalize ensureSSOUser d s q tenant email name = outcome at hkeys
  obtain ⟨result, accounts⟩ := outcome
  dsimp only at hkeys ⊢
  split
  · exact ⟨rfl, hkeys⟩
  split
  · split
    · exact ⟨rfl, hkeys⟩
    · exact ⟨rfl, hkeys⟩
  · exact ⟨rfl, hkeys⟩

theorem served_callback {d : Deployment} {s : System} {q : Incoming} {claims : MicrosoftClaims}
    {tenant : Except Err ℤ} (h : q.route = .microsoftCallback (some claims) tenant) :
    Served d s q (microsoftCallback d s q (some claims) tenant).1
      (microsoftCallback d s q (some claims) tenant).2 := by
  unfold microsoftCallback
  dsimp only
  generalize (if d.toLower (trimSpace claims.email) = [] then
    d.toLower (trimSpace claims.preferredUsername) else d.toLower (trimSpace claims.email)) = email
  split
  · obtain ⟨hprincipal, hkeys⟩ := served_completeLogin d s q tenant email claims.name
    generalize completeLogin d s q tenant email claims.name = out at hprincipal hkeys
    obtain ⟨⟨principal, answer⟩, s'⟩ := out
    cases hprincipal
    exact .login answer s' (Or.inr ⟨claims, tenant, h⟩) hkeys
  · exact .unseen _ s rfl rfl fun _ hc => hc

theorem served_devAuthLogin {d : Deployment} (hdev : d.devAuthBypass = true) (s : System)
    (q : Incoming) : Served d s q (devAuthLogin d s q).1 (devAuthLogin d s q).2 := by
  unfold devAuthLogin
  dsimp only
  split
  · exact .unseen _ s rfl rfl fun _ hc => hc
  split
  · exact .unseen _ s rfl rfl fun _ hc => hc
  · exact .login _ _ (Or.inl hdev) rfl

theorem served_sessionMode (d : Deployment) (s : System) (q : Incoming) (mode : Option Str) :
    Served d s q (sessionMode d s q mode).1 (sessionMode d s q mode).2 := by
  unfold sessionMode
  cases hsender : userFromSession d s q with
  | none => exact .unseen _ s rfl rfl fun _ hc => hc
  | some sender =>
    have hsome : (userFromSession d s q).isSome := by rw [hsender]; rfl
    dsimp only
    split
    · exact .session _ _ hsome rfl
    split
    · exact .session _ _ hsome rfl
    split
    · exact .session _ _ hsome rfl
    · exact .session _ _ hsome rfl

theorem served {d : Deployment} {s s' : System} {q : Incoming} {reply : Reply}
    (h : Authentication.serve d s q = some (reply, s')) : Served d s q reply s' := by
  unfold Authentication.serve at h
  cases hroute : q.route with
  | health | register | login | forgot | qr | logout | methodNotAllowed =>
    rw [hroute] at h
    cases h
    exact .unseen _ _ rfl rfl fun _ hc => hc
  | redirect db unlocked =>
    rw [hroute] at h
    cases h
    refine .unseen _ _ rfl rfl fun c hc => ?_
    rcases List.mem_append.mp hc with hc | hc
    · exact hc
    · obtain ⟨_, _, hlink⟩ := List.mem_map.mp hc
      cases hlink
  | docs =>
    rw [hroute] at h
    cases hsender : userFromSession d s q with
    | none =>
      rw [hsender] at h
      cases h
      exact .unseen _ _ rfl rfl fun _ hc => hc
    | some sender =>
      rw [hsender] at h
      cases h
      exact .session _ _ (by rw [hsender]; rfl) rfl
  | index =>
    rw [hroute] at h
    dsimp only at h
    split at h <;> cases h <;> exact .unseen _ _ rfl rfl fun _ hc => hc
  | microsoftLogin =>
    rw [hroute] at h
    dsimp only [microsoftLogin] at h
    split at h
    · rename_i hdev
      have hserved := served_devAuthLogin hdev s q
      rw [Option.some.inj h] at hserved
      exact hserved
    · cases h
      exact .unseen _ _ rfl rfl fun _ hc => hc
  | microsoftCallback verified tenant =>
    rw [hroute] at h
    cases verified with
    | none =>
      cases h
      exact .unseen _ _ rfl rfl fun _ hc => hc
    | some claims =>
      have hserved := @served_callback d s q claims tenant hroute
      rw [Option.some.inj h] at hserved
      exact hserved
  | sessionMode mode =>
    rw [hroute] at h
    have hserved := served_sessionMode d s q mode
    rw [Option.some.inj h] at hserved
    exact hserved
  | read page =>
    rw [hroute] at h
    exact served_guarded h
  | listKeys =>
    rw [hroute] at h
    exact served_guarded h
  | admin a =>
    rw [hroute] at h
    exact served_guarded h

/-- Keys last, whatever is done. -/
theorem keys_last {d : Deployment} {s s' : System} {q : Incoming} {reply : Reply}
    (h : Served d s q reply s') {k : KeyRow} (hk : k ∈ s.world.accounts.keys.rows) :
    ∃ k' ∈ s'.world.accounts.keys.rows, SameKey k k' := by
  cases h with
  | unseen _ _ _ keys => exact ⟨k, keys ▸ hk, .refl k⟩
  | login _ _ _ keys => exact ⟨k, keys ▸ hk, .refl k⟩
  | session _ _ _ keys => exact ⟨k, keys ▸ hk, .refl k⟩
  | guarded _ _ _ _ _ _ tended =>
    obtain ⟨k', hk', hkept⟩ := exists_of_tended tended hk
    exact ⟨k', hk', same_of_kept hkept⟩

/-! ## The holder of a key -/

def rank : Role → ℕ
  | .customer => 0
  | .tenant => 1
  | .superadmin => 2

/-- The request names no key but this one, carries no token but those the client was given, and
completes no login. -/
structure KeyOnly (d : Deployment) (key : Str) (s : System) (q : Incoming) : Prop where
  key : apiKeyFromRequest q = key ∨ apiKeyFromRequest q = []
  session : ∀ token, q.session = some token → Unforged d.mac {i | i ∈ s.granted} token
  bearer : Unforged d.mac {i | i ∈ s.granted} (bearerOf q)
  login : ∀ claims tenant, q.route ≠ .microsoftCallback (some claims) tenant

/-- The client was given no session token. -/
def NoSession (s : System) : Prop := ∀ c, .jwt c ∉ s.granted

theorem ParseJWT_of_noSession {d : Deployment} {s : System} (hno : NoSession s) {token : Str}
    (h : Unforged d.mac {i | i ∈ s.granted} token) (now : Int64) :
    ParseJWT d.mac now token = none := by
  cases hparse : ParseJWT d.mac now token with
  | none => rfl
  | some c =>
    obtain ⟨c', hissued, -⟩ := issued_of_ParseJWT h hparse
    exact absurd hissued (hno c')

theorem userFromSession_none {d : Deployment} {s : System} {q : Incoming} {key : Str}
    (hno : NoSession s) (h : KeyOnly d key s q) : userFromSession d s q = none := by
  have hparse : q.session.bind (ParseJWT d.mac q.now) = none := by
    rw [Option.bind_eq_none_iff]
    intro token htoken
    exact ParseJWT_of_noSession hno (h.session token htoken) q.now
  rw [userFromSession, hparse]

/-- A caller without a session is let in by a stored key. -/
theorem withAuth_key {d : Deployment} {s : System} {q : Incoming} {key : Str} {u : UserRow}
    {p : Principal} (hno : NoSession s) (h : KeyOnly d key s q)
    (hauth : withAuth d s q = .ok (u, p)) :
    ∃ k ∈ s.world.accounts.keys.rows, k.keyHash = d.SHA256Hex key ∧
      u ∈ s.world.accounts.users.rows ∧ u.id = k.userId ∧
      p = effectivePrincipal (userOf u)
        (if k.scope = lit "user" then lit "user" else defaultDashboardMode (userOf u))
        (lit "api_key") := by
  unfold withAuth at hauth
  by_cases hkey : apiKeyFromRequest q = []
  · rw [if_neg (not_not.mpr hkey), userFromSession_none hno h] at hauth
    dsimp only at hauth
    rw [ParseJWT_of_noSession hno h.bearer] at hauth
    cases hauth
  · rw [if_pos hkey, h.key.resolve_right hkey] at hauth
    split at hauth
    · cases hauth
    rename_i u' scope hfound
    dsimp only at hauth
    split at hauth
    · cases hauth
      have hread := call_ok hfound
      split at hread
      · cases hread
      rename_i k hk
      split at hread
      · cases hread
      rename_i u' hu
      cases hread
      have hhash := List.find?_some hk
      have huser := List.find?_some hu
      rw [Bool.and_eq_true, decide_eq_true_eq] at hhash huser
      exact ⟨k, List.mem_of_find?_eq_some hk, hhash.1, List.mem_of_find?_eq_some hu, huser.1, rfl⟩
    · cases hauth

theorem rank_effective (actual : User) (mode authType : Str) :
    rank (effectivePrincipal actual mode authType).effective.role ≤ rank actual.role := by
  rcases effective_eq actual mode authType with heq | heq
  · rw [heq]
  · rw [heq]
    exact Nat.zero_le _

theorem effective_user (actual : User) (authType : Str) :
    (effectivePrincipal actual (lit "user") authType).effective.role = .customer ∧
      (effectivePrincipal actual (lit "user") authType).mode = lit "user" :=
  ⟨rfl, rfl⟩

/-- What a request does that proves who sends it by the key `k` alone. -/
structure Confined (k : KeyRow) (s : System) (reply : Reply) (s' : System) : Prop where
  role : ∀ p, reply.principal = some p → ∃ owner ∈ s.world.accounts.users.rows,
    owner.id = k.userId ∧ p.actual = userOf owner ∧ rank p.effective.role ≤ rank owner.role
  noKey : s'.world.accounts.keys.rows.map KeyRow.id = s.world.accounts.keys.rows.map KeyRow.id
  noSession : ∀ c, .jwt c ∉ s'.granted
  customer : k.scope = lit "user" → ∀ p, reply.principal = some p →
    p.effective.role = .customer ∧ p.mode = lit "user"
  listed : k.scope = lit "user" → ∀ ks, reply.answer = .keys ks → ∀ a ∈ ks, a.scope = lit "user"
  revoked : k.scope = lit "user" → ∀ a ∈ s.world.accounts.keys.rows, a.scope ≠ lit "user" →
    a ∈ s'.world.accounts.keys.rows

theorem keyClash_symm (a b : KeyRow) (h : keyClash a b) : keyClash b a := h.imp Eq.symm Eq.symm

/-- A reply without a principal that leaves the keys alone. -/
theorem confined_unseen {k : KeyRow} {s s' : System} {answer : Answer}
    (lists : Answer.lists answer = none)
    (keys : s'.world.accounts.keys = s.world.accounts.keys) (hno : NoSession s') :
    Confined k s ⟨none, answer⟩ s' := by
  constructor
  · intro p hp
    cases hp
  · rw [keys]
  · exact hno
  · intro _ p hp
    cases hp
  · intro _ ks hks
    cases hks
    cases lists
  · intro _ a ha _
    rw [keys]
    exact ha

theorem mem_listAPIKeys {io : Script} {s : Accounts} {userId : ℤ} {ks : List APIKey}
    (h : listAPIKeys io s userId (lit "user") = .ok ks) : ∀ a ∈ ks, a.scope = lit "user" := by
  intro a ha
  have hlist := Except.ok.inj (call_ok h)
  rw [← hlist, List.mem_mergeSort, List.mem_map] at ha
  obtain ⟨k, hk, rfl⟩ := ha
  rw [List.mem_filter, Bool.and_eq_true, Bool.and_eq_true, Bool.or_eq_true] at hk
  rcases hk.2.2 with hne | hscope
  · exact absurd rfl (of_decide_eq_true hne)
  · exact of_decide_eq_true hscope

theorem ids_of_kept {P : KeyRow → Prop} {a b : List KeyRow} (h : List.Forall₂ (Kept P) a b) :
    b.map KeyRow.id = a.map KeyRow.id := by
  induction h with
  | nil => rfl
  | cons hhead _ ih => rw [List.map_cons, List.map_cons, (same_of_kept hhead).id, ih]

/-- A customer revokes keys of the own scope only. -/
theorem scope_of_revocable {c : Caller} {k : KeyRow} (hrole : c.user.role = .customer)
    (hmode : c.principal.mode = lit "user") (h : Revocable c k) : k.scope = lit "user" := by
  rcases h with hsuper | hown
  · rw [hrole] at hsuper
    cases hsuper
  · rw [keyScopeOf, if_pos hmode, ownKey, Bool.and_eq_true, Bool.and_eq_true,
      Bool.or_eq_true] at hown
    rcases hown.2.2 with hne | hscope
    · exact absurd rfl (of_decide_eq_true hne)
    · exact of_decide_eq_true hscope

theorem confined_of_served {d : Deployment} (hdev : d.devAuthBypass = false) {key : Str}
    {s s' : System} {q : Incoming} {reply : Reply} {k k' : KeyRow} (hno : NoSession s)
    (h : KeyOnly d key s q) (hserved : Served d s q reply s')
    (hhash : k.keyHash = d.SHA256Hex key) (hk : k' ∈ s.world.accounts.keys.rows)
    (hsame : SameKey k k') : Confined k s reply s' := by
  cases hserved with
  | unseen answer s' lists keys granted =>
    exact confined_unseen lists keys fun c hc => hno c (granted c hc)
  | login answer s' cause keys =>
    rcases cause with hbypass | ⟨claims, tenant, hroute⟩
    · rw [hdev] at hbypass
      cases hbypass
    · exact absurd hroute (h.login claims tenant)
  | session reply s' sender keys =>
    rw [userFromSession_none hno h] at sender
    cases sender
  | @guarded answer s' u p c hauth hcaller granted lists tended =>
    obtain ⟨k₀, hk₀, hhash₀, hu, howner, hp⟩ := withAuth_key hno h hauth
    -- The hash names one row, so the key that was found is the key that was given.
    have hclash : keyClash k₀ k' := Or.inr (by rw [hhash₀, hsame.keyHash, hhash])
    obtain rfl := s.world.accounts.keys.eq_of_clash keyClash_symm hk₀ hk hclash
    obtain ⟨kept, fresh, hrows, hkept, hfresh⟩ := tended
    have hauthType : c.principal.authType = lit "api_key" := by rw [hcaller, hp]; rfl
    have hnil : fresh = [] := hfresh (by rw [hauthType]; decide)
    rw [hnil, List.append_nil] at hrows
    constructor
    · intro p' hp'
      cases hp'
      refine ⟨u, hu, howner.trans hsame.userId, ?_, ?_⟩
      · rw [hp]
        rfl
      · rw [hp]
        exact rank_effective (userOf u) _ _
    · rw [hrows]
      exact ids_of_kept hkept
    · intro c hc
      rw [granted] at hc
      exact hno c hc
    · intro hscope p' hp'
      cases hp'
      rw [hp, if_pos (hsame.scope.trans hscope)]
      exact effective_user _ _
    · intro hscope ks hks
      have hmode : c.principal.mode = lit "user" := by
        rw [hcaller, hp, if_pos (hsame.scope.trans hscope)]
        rfl
      have hlist := lists ks (by rw [show answer = .keys ks from hks]; rfl)
      rw [keyScopeOf, if_pos hmode] at hlist
      exact mem_listAPIKeys hlist
    · intro hscope a ha hother
      have hprincipal : c.principal = effectivePrincipal (userOf u) (lit "user")
          (lit "api_key") := by
        rw [hcaller, hp, if_pos (hsame.scope.trans hscope)]
      obtain ⟨a', ha', hkeep⟩ := exists_of_tended ⟨kept, [], by rw [List.append_nil], hkept,
        fun _ => rfl⟩ ha
      rcases hkeep with rfl | ⟨hrevocable, -⟩
      · rw [hrows]
        exact ha'
      · refine absurd (scope_of_revocable ?_ ?_ hrevocable) hother
        · rw [Caller.user, hprincipal]
          rfl
        · rw [hprincipal]
          rfl

/-! ## Runs -/

/-- What the run keeps: the client has no session, and the key is stored. -/
def Holds (k : KeyRow) (s : System) : Prop :=
  NoSession s ∧ ∃ k' ∈ s.world.accounts.keys.rows, SameKey k k'

theorem holds_next {d : Deployment} (hdev : d.devAuthBypass = false) {key : Str} {k : KeyRow}
    (hhash : k.keyHash = d.SHA256Hex key) {s s' : System} {e : Event} (h : Holds k s)
    (only : ∀ q, e = .request q → KeyOnly d key s q) (hnext : next d s e = some s') :
    Holds k s' := by
  obtain ⟨hno, k', hk, hsame⟩ := h
  cases e with
  | request q =>
    obtain ⟨⟨reply, v⟩, hserve, rfl⟩ := Option.map_eq_some_iff.mp hnext
    have hserved := served hserve
    refine ⟨(confined_of_served hdev hno (only q rfl) hserved hhash hk hsame).noSession, ?_⟩
    obtain ⟨k'', hk'', hsame'⟩ := keys_last hserved hk
    exact ⟨k'', hk'', hsame'.id.trans hsame.id, hsame'.userId.trans hsame.userId,
      hsame'.keyHash.trans hsame.keyHash, hsame'.scope.trans hsame.scope⟩
  | other q =>
    obtain ⟨⟨reply, v⟩, hserve, rfl⟩ := Option.map_eq_some_iff.mp hnext
    refine ⟨hno, ?_⟩
    obtain ⟨k'', hk'', hsame'⟩ := keys_last (served hserve) hk
    exact ⟨k'', hk'', hsame'.id.trans hsame.id, hsame'.userId.trans hsame.userId,
      hsame'.keyHash.trans hsame.keyHash, hsame'.scope.trans hsame.scope⟩
  | alterUsers users =>
    cases hnext
    exact ⟨hno, k', hk, hsame⟩

/-- Whoever sends requests with one API key and nothing else stays within its authority, in any run
of such requests, of everybody else's and of changes of roles. -/
theorem key_authority (d : Deployment) (hdev : d.devAuthBypass = false) (key : Str) {s u : System}
    {es : List Event} (run : Execution (next d) s es u) (k : KeyRow)
    (stored : k ∈ s.world.accounts.keys.rows) (hash : k.keyHash = d.SHA256Hex key)
    (start : NoSession s)
    (only : ∀ xs q ys w, es = xs ++ .request q :: ys → Execution (next d) s xs w →
      KeyOnly d key w q)
    (q : Incoming) (last : KeyOnly d key u q) {reply : Reply} {v : System}
    (served : Authentication.serve d u q = some (reply, v)) : Confined k u reply v := by
  have hholds : Holds k u := by
    refine run.invariant_of (P := fun u e => ∀ q, e = .request q → KeyOnly d key u q)
      ⟨start, k, stored, .refl k⟩ (fun u e v h side hnext => holds_next hdev hash h side hnext) ?_
    intro xs e ys w hes hw q' he
    exact only xs q' ys w (he ▸ hes) hw
  obtain ⟨hno, k', hk, hsame⟩ := hholds
  exact confined_of_served hdev hno last (KeyAuthority.served served) hash hk hsame

/-! A superadmin with a key of either scope. -/

def sampleKey : Str := lit "sq_live_Zm9vYmFyYmF6cXV4"

def userKey : KeyRow :=
  ⟨1, 1, lit "ci", lit "cda261bcebb4827e68580570fece8e28440887ff83730e01d40f519c317bf1d9",
    lit "sq_live_Zm9vYmFy", lit "user", none⟩

def accountKey : KeyRow := ⟨2, 1, lit "ops", lit "ef", lit "sq_live_b3Bz", lit "account", none⟩

def sampleDeployment : Deployment where
  server := LinkResponses.deployed
  mac := sampleMac
  SHA256Hex s := if s = sampleKey then userKey.keyHash else []
  EqualFold a b := a = b
  devAuthBypass := false
  devAuthEmail := []
  oidcAllowedDomain := lit "example.com"
  oidcAllowedEmail := []

theorem sample_users : [UserRow.mk 1 none (lit "a@example.com") (lit "A") .superadmin true true
    []].Pairwise fun a b => ¬ userClash a b := List.pairwise_singleton _ _

theorem sample_keys : [userKey, accountKey].Pairwise fun a b => ¬ keyClash a b := by decide

def sampleSystem : System where
  world := { LinkResponses.colleagues with
    accounts := ⟨⟨[⟨1, none, lit "a@example.com", lit "A", .superadmin, true, true, []⟩],
      sample_users⟩, 2, ⟨[userKey, accountKey], sample_keys⟩, 3⟩ }
  granted := []

def asking (route : Route) : Incoming where
  xAPIKey := sampleKey
  authorization := []
  session := none
  request := LinkResponses.request
  now := 1767312000
  sender := {}
  calls := LinkResponses.healthy
  route := route

theorem asking_keyOnly (s : System) {route : Route}
    (h : ∀ claims tenant, route ≠ .microsoftCallback (some claims) tenant) :
    KeyOnly sampleDeployment sampleKey s (asking route) := by
  have hkey : trimSpace sampleKey = sampleKey := by decide
  have hne : sampleKey ≠ [] := by decide
  constructor
  · exact Or.inl (by simp [apiKeyFromRequest, asking, hkey, hne])
  · intro token htoken
    cases htoken
  · intro data tag htoken _
    have hlength := congrArg List.length htoken
    rw [List.length_append, List.length_append] at hlength
    simp [bearerOf, asking, trimPrefix] at hlength
    omega
  · exact h

/-- The key is used to revoke the other one, and then to ask for a list. -/
theorem key_authority_sample : ∃ u reply v,
    Execution (next sampleDeployment) sampleSystem [.request (asking (.admin (.revokeKey 2)))] u ∧
      Authentication.serve sampleDeployment u (asking .listKeys) = some (reply, v) ∧
      Confined userKey u reply v := by
  have hstep : (next sampleDeployment sampleSystem
      (.request (asking (.admin (.revokeKey 2))))).isSome := by decide
  obtain ⟨u, hu⟩ := Option.isSome_iff_exists.mp hstep
  have hserve : ((next sampleDeployment sampleSystem
      (.request (asking (.admin (.revokeKey 2))))).bind fun u =>
        Authentication.serve sampleDeployment u (asking .listKeys)).isSome := by decide
  rw [hu, Option.bind_some] at hserve
  obtain ⟨⟨reply, v⟩, hreply⟩ := Option.isSome_iff_exists.mp hserve
  have hrun := Execution.single hu
  refine ⟨u, reply, v, hrun, hreply, key_authority sampleDeployment rfl sampleKey hrun userKey
    List.mem_cons_self (by decide) (fun c hc => nomatch hc) ?_ (asking .listKeys)
    (asking_keyOnly u fun _ _ h => nomatch h) hreply⟩
  intro xs q ys w hes _
  cases xs with
  | nil =>
    cases hes
    exact asking_keyOnly w fun _ _ h => nomatch h
  | cons x xs =>
    obtain ⟨-, hrest⟩ := List.cons.inj hes
    exact absurd hrest.symm (by simp)

end KeyAuthority
