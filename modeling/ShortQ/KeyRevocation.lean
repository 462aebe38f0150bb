import ShortQ.KeyAuthority

/-! # Revoked keys

Runs of the store calls on users and keys. A key is cut off by its own revocation or by the
deactivation of its owner, and stays cut off; a call cuts off no key but those it is about. -/
namespace KeyRevocation

open AccountRows
open Authentication
open GoText (Str lit)
open KeyAuthority (Kept keyClash_symm)
open LabelledRuns
open RowTable
open Schema
open Transaction

inductive Call where
  | createAPIKey (io : Script) (userId : ℤ) (name hash keyPrefix scope : Str)
  | revokeAPIKey (io : Script) (userId id : ℤ) (scope : Str)
  | setUserActive (io : Script) (id : ℤ) (active : Bool)
  | userByAPIKey (io : Script) (hash : Str)
  | listAPIKeys (io : Script) (userId : ℤ) (scope : Str)

/-- Each call is possible in every state; the two queries leave it as it is. -/
def next (s : Accounts) : Call → Option Accounts
  | .createAPIKey io userId name hash keyPrefix scope =>
    some (createAPIKey io s userId name hash keyPrefix scope).2
  | .revokeAPIKey io userId id scope => some (revokeAPIKey io s userId id scope).2
  | .setUserActive io id active => some (setUserActiveWrite io s id active).2
  | .userByAPIKey _ _ => some s
  | .listAPIKeys _ _ _ => some s

/-- The call reports that it revoked the key, or that it deactivated the owner. -/
def Cuts (s : Accounts) (k : KeyRow) : Call → Prop
  | .revokeAPIKey io userId id scope =>
    (revokeAPIKey io s userId id scope).1 = none ∧ ownKey userId id scope k = true
  | .setUserActive io id active =>
    (setUserActiveWrite io s id active).1 = none ∧ active = false ∧ k.userId = id
  | _ => False

/-- The keys a call is about: those of its user, and of its scope where it names `user`. -/
def About (k : KeyRow) : Call → Prop
  | .revokeAPIKey _ userId id scope =>
    k.id = id ∧ k.userId = userId ∧ (scope = lit "user" → k.scope = lit "user")
  | .setUserActive _ id active => active = false ∧ k.userId = id
  | _ => False

/-- The row of the key carries a time of revocation. -/
def Revoked (s : Accounts) (k : KeyRow) : Prop :=
  ∃ r ∈ s.keys.rows, r.id = k.id ∧ r.keyHash = k.keyHash ∧ r.revokedAt ≠ none

/-- No lookup accepts the hash of the key and no list shows the key. -/
structure Refused (s : Accounts) (k : KeyRow) : Prop where
  lookup : ∀ io accepted, userByAPIKey io s k.keyHash ≠ .ok accepted
  list : ∀ io userId scope keys, listAPIKeys io s userId scope = .ok keys →
    ∀ shown ∈ keys, shown.id ≠ k.id

/-! What a call leaves of the keys. -/

/-- The keys before a call stand first after it, and it may add one. -/
theorem kept_of_next {s t : Accounts} {call : Call} (h : next s call = some t) :
    ∃ kept fresh, t.keys.rows = kept ++ fresh ∧
      List.Forall₂ (Kept fun k => About k call) s.keys.rows kept := by
  cases call with
  | createAPIKey io userId name hash keyPrefix scope =>
    cases h
    have hself := KeyAuthority.kept_self
      (fun k => About k (.createAPIKey io userId name hash keyPrefix scope)) s.keys.rows
    rcases AuditTrail.createAPIKey_cases io s userId name hash keyPrefix scope with
      ⟨-, hkeys⟩ | ⟨k, -, -, -, -, -, hrows⟩
    · exact ⟨s.keys.rows, [], by rw [hkeys, List.append_nil], hself⟩
    · exact ⟨s.keys.rows, [k], hrows, hself⟩
  | revokeAPIKey io userId id scope =>
    cases h
    refine ⟨_, [], (List.append_nil _).symm,
      KeyAuthority.kept_revokeAPIKey io s userId id scope fun k hk => ?_⟩
    simp only [ownKey, Bool.and_eq_true, Bool.or_eq_true, decide_eq_true_eq] at hk
    exact ⟨hk.1, hk.2.1, fun huser => hk.2.2.resolve_left (not_not.mpr huser)⟩
  | setUserActive io id active =>
    cases h
    exact ⟨_, [], (List.append_nil _).symm,
      KeyAuthority.kept_setUserActiveWrite io s id active fun _ hactive hk => ⟨hactive, hk⟩⟩
  | userByAPIKey io hash =>
    cases h
    exact ⟨_, [], (List.append_nil _).symm, KeyAuthority.kept_self _ _⟩
  | listAPIKeys io userId scope =>
    cases h
    exact ⟨_, [], (List.append_nil _).symm, KeyAuthority.kept_self _ _⟩

theorem mem_of_next {s t : Accounts} {call : Call} (h : next s call = some t) {k : KeyRow}
    (hk : k ∈ s.keys.rows) : ∃ r ∈ t.keys.rows, Kept (fun k => About k call) k r := by
  obtain ⟨kept, fresh, hrows, hkept⟩ := kept_of_next h
  obtain ⟨i, hi, rfl⟩ := List.mem_iff_getElem.mp hk
  have hi' : i < kept.length := hkept.length_eq ▸ hi
  refine ⟨kept[i], ?_, hkept.get hi hi'⟩
  rw [hrows]
  exact List.mem_append_left fresh (List.getElem_mem hi')

/-- A row keeps its identity, and a revoked row stays revoked. -/
theorem revoked_next {s t : Accounts} {call : Call} {k : KeyRow} (h : next s call = some t)
    (hrevoked : Revoked s k) : Revoked t k := by
  obtain ⟨r, hr, hid, hhash, hat⟩ := hrevoked
  obtain ⟨r', hr', hkept⟩ := mem_of_next h hr
  refine ⟨r', hr', ?_⟩
  rcases hkept with rfl | ⟨-, now, rfl⟩
  · exact ⟨hid, hhash, hat⟩
  · exact ⟨hid, hhash, by simp [revoke]⟩

theorem revoked_run {s t : Accounts} {calls : List Call} {k : KeyRow}
    (h : Execution next s calls t) (hrevoked : Revoked s k) : Revoked t k :=
  h.invariant (I := fun u => Revoked u k) hrevoked fun _ _ _ hu hstep => revoked_next hstep hu

/-! What a call that reports success has revoked. -/

theorem revoked_update {s : Accounts} {p : KeyRow → Bool} {now : GoTime.Time} {k : KeyRow}
    (hk : k ∈ s.keys.rows) (hp : p k = true) :
    Revoked { s with keys := s.keys.update p (revoke now) (keeps_revoke now) } k := by
  refine ⟨revoke now k, ?_, rfl, rfl, by simp [revoke]⟩
  rw [Table.rows_update, List.mem_map]
  exact ⟨k, hk, if_pos hp⟩

theorem revoked_of_revokeAPIKey {io : Script} {s : Accounts} {userId id : ℤ} {scope : Str}
    {k : KeyRow} (h : (revokeAPIKey io s userId id scope).1 = none) (hk : k ∈ s.keys.rows)
    (hown : ownKey userId id scope k = true) :
    Revoked (revokeAPIKey io s userId id scope).2 k := by
  rw [AuditTrail.revokeAPIKey_state]
  rcases AuditTrail.statement_cases io s (.ok { s with
      keys := s.keys.update (ownKey userId id scope) (revoke (nowOf io))
        (keeps_revoke (nowOf io)) }) with ⟨hfail, -⟩ | ⟨after, hafter, heq⟩
  · exfalso
    unfold revokeAPIKey at h
    split at h
    · cases h
    · rename_i hrun
      rw [hrun] at hfail
      exact hfail rfl
  · rw [heq, ← Except.ok.inj hafter]
    exact revoked_update hk hown

/-- The keys that were revoked before are left with their own time. -/
theorem revoked_of_setUserActive {io : Script} {s : Accounts} {id : ℤ} {k : KeyRow}
    (h : (setUserActiveWrite io s id false).1 = none) (hk : k ∈ s.keys.rows)
    (howner : k.userId = id) : Revoked (setUserActiveWrite io s id false).2 k := by
  have hbody := inTx_none h
  rw [← setUserActiveWrite] at hbody
  split at hbody
  · cases hbody
  · rename_i tx hcall
    have hok := call_ok hcall
    split at hok
    · cases hok
    · cases hok
      rw [if_neg (by decide)] at hbody
      rw [← Except.ok.inj (call_ok hbody)]
      cases hat : k.revokedAt with
      | none => exact revoked_update hk (by simp [howner, hat])
      | some now =>
        refine ⟨k, ?_, rfl, rfl, by simp [hat]⟩
        rw [Table.rows_update, List.mem_map]
        exact ⟨k, hk, by simp [hat]⟩

theorem revoked_of_cuts {s t : Accounts} {call : Call} {k : KeyRow} (h : next s call = some t)
    (hk : k ∈ s.keys.rows) (hcuts : Cuts s k call) : Revoked t k := by
  cases call with
  | createAPIKey => exact hcuts.elim
  | revokeAPIKey io userId id scope =>
    cases h
    exact revoked_of_revokeAPIKey hcuts.1 hk hcuts.2
  | setUserActive io id active =>
    cases h
    obtain ⟨hdone, rfl, howner⟩ := hcuts
    exact revoked_of_setUserActive hdone hk howner
  | userByAPIKey => exact hcuts.elim
  | listAPIKeys => exact hcuts.elim

/-! What the queries say of a revoked key. -/

/-- The stored row is the only one with its hash and the only one with its id. -/
theorem refused_of_revoked {s : Accounts} {k : KeyRow} (h : Revoked s k) : Refused s k := by
  obtain ⟨r, hr, hid, hhash, hat⟩ := h
  constructor
  · intro io accepted haccepted
    have hok := call_ok haccepted
    split at hok
    · cases hok
    · rename_i found hfound
      have hmatch := List.find?_some hfound
      rw [Bool.and_eq_true, decide_eq_true_eq, Option.isNone_iff_eq_none] at hmatch
      have hsame : found = r := s.keys.eq_of_clash keyClash_symm (List.mem_of_find?_eq_some hfound)
        hr (Or.inr (hmatch.1.trans hhash.symm))
      exact hat (hsame ▸ hmatch.2)
  · intro io userId scope keys hkeys shown hshown heq
    have hlist := Except.ok.inj (call_ok hkeys)
    rw [← hlist, List.mem_mergeSort, List.mem_map] at hshown
    obtain ⟨found, hfound, rfl⟩ := hshown
    obtain ⟨hmem, hmatch⟩ := List.mem_filter.mp hfound
    simp only [Bool.and_eq_true, Option.isNone_iff_eq_none] at hmatch
    have hsame : found = r := s.keys.eq_of_clash keyClash_symm hmem hr (Or.inl (heq.trans hid.symm))
    exact hat (hsame ▸ hmatch.1.2)

/-- A key that a call left revoked is one of those the call is about. -/
theorem about_of_revoked {s t : Accounts} {call : Call} {k : KeyRow} (h : next s call = some t)
    (hk : k ∈ s.keys.rows) (hactive : k.revokedAt = none) (hrevoked : Revoked t k) :
    About k call := by
  obtain ⟨r, hr, hid, -, hat⟩ := hrevoked
  obtain ⟨r', hr', hkept⟩ := mem_of_next h hk
  rcases hkept with rfl | ⟨habout, -⟩
  · have hsame : r = r' := t.keys.eq_of_clash keyClash_symm hr hr' (Or.inl hid)
    exact absurd hactive (hsame ▸ hat)
  · exact habout

/-- A key that is cut off is refused in every later state, and a call cuts off no key of another
user and, for a request of scope `user`, no key of the account. -/
theorem revocation_permanent {s t u : Accounts} {call : Call} {calls : List Call} {k : KeyRow}
    (hk : k ∈ s.keys.rows) (hstep : next s call = some t) (hrun : Execution next t calls u) :
    (Cuts s k call → Refused u k) ∧ (k.revokedAt = none → Revoked t k → About k call) := by
  constructor
  · intro hcuts
    exact refused_of_revoked (revoked_run hrun (revoked_of_cuts hstep hk hcuts))
  · intro hactive hrevoked
    exact about_of_revoked hstep hk hactive hrevoked

/-- The owner of two keys is deactivated and reactivated. -/
def sample : Accounts :=
  ⟨⟨[⟨1, none, lit "a@example.com", lit "A", .customer, true, true, []⟩],
    List.pairwise_singleton _ _⟩, 2,
    ⟨[KeyAuthority.userKey, KeyAuthority.accountKey], KeyAuthority.sample_keys⟩, 3⟩

theorem revocation_permanent_sample :
    Cuts sample KeyAuthority.userKey (.setUserActive {} 1 false) ∧
      Refused (setUserActiveWrite {} (setUserActiveWrite {} sample 1 false).2 1 true).2
        KeyAuthority.userKey ∧
      Revoked (setUserActiveWrite {} sample 1 false).2 KeyAuthority.userKey ∧
      About KeyAuthority.userKey (.setUserActive {} 1 false) := by
  have hcuts : Cuts sample KeyAuthority.userKey (.setUserActive {} 1 false) :=
    ⟨by decide, rfl, rfl⟩
  have hrevoked : Revoked (setUserActiveWrite {} sample 1 false).2 KeyAuthority.userKey :=
    revoked_of_cuts rfl (by simp [sample]) hcuts
  obtain ⟨hrefused, habout⟩ :=
    @revocation_permanent sample _ _ (.setUserActive {} 1 false) _ KeyAuthority.userKey
      (by simp [sample]) rfl (.single (e := .setUserActive {} 1 true) rfl)
  exact ⟨hcuts, hrefused hcuts, hrevoked, habout rfl hrevoked⟩

end KeyRevocation
