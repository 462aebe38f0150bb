import ShortQ.AcceptedLinks
import ShortQ.AdminHandlers
import ShortQ.LinkResponses

/-! # Which writes leave an audit row

A handler commits first and audits afterwards, so a refused audit leaves a write unaudited unless
the handler undoes it, as the creation of API keys does. -/
namespace AuditTrail

open AccountRows
open AcceptedLinks (varchar_short)
open AdminHandlers
open AuditLog
open AuditedHandlers
open GoText
open Hosts
open LinkCalls
open LinkEdits (Patch)
open LinkHandlers
open LinkStore
open Models
open RowTable
open Runes
open Schema
open TenantDomains
open Transaction

/-- The rows of the administration are the same; sequences do not count. -/
structure SameTables (a b : World) : Prop where
  links : b.db.links = a.db.links
  geoTargets : b.db.geoTargets = a.db.geoTargets
  domains : b.domains.table = a.domains.table
  users : b.accounts.users = a.accounts.users
  keys : b.accounts.keys = a.accounts.keys

theorem SameTables.refl (w : World) : SameTables w w := ⟨rfl, rfl, rfl, rfl, rfl⟩

/-- All there is beside the rows of before is one API key, and it is revoked. -/
structure Revoked (a b : World) : Prop where
  others : SameTables a { b with accounts := { b.accounts with keys := a.accounts.keys } }
  key : ∃ k, b.accounts.keys.rows = a.accounts.keys.rows ++ [k] ∧ k.revokedAt.isSome

def action : AdminRequest → Str
  | .link (.create _) => lit "link.created"
  | .link (.edit ..) => lit "link.updated"
  | .link (.delete _) => lit "link.deleted"
  | .link (.bulkEdit ..) => lit "link.bulk_updated"
  | .link (.bulkDelete ..) => lit "link.bulk_deleted"
  | .link (.importRows ..) => lit "link.imported"
  | .link (.shortioCreate _) => lit "shortio.link.created"
  | .link (.shortioDelete _) => lit "shortio.link.deleted"
  | .link (.shortioDeleteBulk _) => lit "shortio.link.bulk_deleted"
  | .link _ => []
  | .createUser _ => lit "user.created"
  | .setActive .. => lit "user.active_changed"
  | .setDeletionAccess .. => lit "user.deletion_access_changed"
  | .createDomain .. => lit "domain.created"
  | .verifyDomain _ => lit "domain.verified"
  | .patchDomain .. => lit "domain.updated"
  | .deleteDomain _ => lit "domain.deleted"
  | .createKey _ => lit "api_key.created"
  | .revokeKey _ => lit "api_key.revoked"

def targetType : AdminRequest → Str
  | .link _ => lit "link"
  | .createUser _ | .setActive .. | .setDeletionAccess .. => lit "user"
  | .createDomain .. | .verifyDomain _ | .patchDomain .. | .deleteDomain _ => lit "domain"
  | .createKey _ | .revokeKey _ => lit "api_key"

/-- What a request names; a creation does not name what it creates. -/
def target : AdminRequest → Option Str
  | .link (.edit id _) => some (formatInt id)
  | .link (.delete id) => some (formatInt id)
  | .link (.bulkDelete ids _) => some (join [44] (ids.map formatInt))
  | .link (.shortioDelete path) => (parseShortioLinkID path).map formatInt
  | .link (.shortioDeleteBulk linkIds) =>
    (parseShortioLinkIDs linkIds).map fun ids => join [44] (ids.map shortioLinkID)
  | .setActive user _ | .setDeletionAccess user _ => some (formatInt user)
  | .verifyDomain domain | .patchDomain domain _ | .deleteDomain domain => some (formatInt domain)
  | .revokeKey key => some (formatInt key)
  | _ => none

/-- The row says who has done what, and that it has been done. -/
structure Matches (c : Caller) (q : AdminRequest) (row : AuditEvent) : Prop where
  outcome : row.outcome = .success
  actor : row.actorUserId = c.principal.actual.id
  action : row.action = action q
  targetType : row.targetType = targetType q
  target : ∀ t, target q = some t → row.targetId = truncateAuditField t 255

/-- No row is written, or a matching audit row is with it, or what was written is undone. -/
def Audited (w : World) (c : Caller) (q : AdminRequest) (out : World) : Prop :=
  SameTables w out ∨ (∃ row, out.audits = w.audits ++ [row] ∧ Matches c q row) ∨ Revoked w out

/-- A statement of its own takes effect. -/
def Lands (io : Script) : Prop := io.exec 0 = none ∧ ∀ text, io.commit ≠ .failed text false

/-- The handler reports its write as done and the audit log takes the event: the User-Agent and
the recorded objects are text, the actor is a user and the insert takes effect. -/
def Recorded (c : Caller) (calls : Calls) (w : World) : Ending → Prop
  | .respond _ => False
  | .record e _ _ => e.outcome = .success ∧ c.readable ∧ Recordable e.before ∧
      Recordable e.after ∧ (∃ u ∈ w.accounts.users.rows, u.id = c.principal.actual.id) ∧
      Lands calls.audit

/-- A key is created and its revocation takes effect. -/
def Compensated (calls : Calls) (q : AdminRequest) : Ending → Prop
  | .respond _ => False
  | .record .. => (∃ name, q = .createKey name) ∧ Lands calls.revoke

/-! Names in plain text. -/

/-- Characters of one byte that are not NUL. -/
theorem plain_chars {l : List Char} (h : ∀ ch ∈ l, 0 < ch.toNat ∧ ch.toNat < 128) :
    Plain (l.flatMap String.utf8EncodeChar) := by
  intro b hb
  obtain ⟨ch, hch, hb⟩ := List.mem_flatMap.mp hb
  obtain ⟨hpos, hsmall⟩ := h ch hch
  have hval : ch.val.toNat = ch.toNat := rfl
  unfold String.utf8EncodeChar at hb
  dsimp only at hb
  rw [if_pos (by omega), hval] at hb
  obtain rfl := List.mem_singleton.mp hb
  constructor
  · rw [UInt8.lt_iff_toNat_lt, UInt8.toNat_ofNat']
    change _ < 128
    omega
  · intro heq
    have hnat := congrArg UInt8.toNat heq
    rw [UInt8.toNat_ofNat'] at hnat
    change _ = 0 at hnat
    omega

theorem plain_toString (i : ℤ) : Plain (lit (toString i)) := by
  have hdigit {n : ℕ} {ch : Char} (h : ch ∈ (Nat.repr n).toList) :
      0 < ch.toNat ∧ ch.toNat < 128 := by
    rw [Nat.toList_repr] at h
    have hd := Nat.isDigit_of_mem_toDigits (by omega) (by omega) h
    simp only [Char.isDigit, Bool.and_eq_true, decide_eq_true_eq] at hd
    have hlow : 48 ≤ ch.toNat := hd.1
    have hhigh : ch.toNat ≤ 57 := hd.2
    omega
  refine plain_chars fun ch hch => ?_
  cases i with
  | ofNat n => exact hdigit hch
  | negSucc n =>
    have heq : toString (Int.negSucc n) = "-" ++ Nat.repr (n + 1) := rfl
    rw [heq, String.toList_append, List.mem_append] at hch
    rcases hch with hch | hch
    · obtain rfl : ch = '-' := by simpa using hch
      decide
    · exact hdigit hch

theorem mem_intersperse {sep t : Str} {texts : List Str} (h : t ∈ texts.intersperse sep) :
    t = sep ∨ t ∈ texts := by
  induction texts with
  | nil => cases h
  | cons x rest ih =>
    cases rest with
    | nil => exact Or.inr h
    | cons y rest =>
      rw [List.intersperse_cons_cons, List.mem_cons, List.mem_cons] at h
      rcases h with rfl | rfl | h
      · exact Or.inr List.mem_cons_self
      · exact Or.inl rfl
      · exact (ih h).imp_right (List.mem_cons_of_mem x)

theorem plain_join {texts : List Str} (h : ∀ t ∈ texts, Plain t) : Plain (join [44] texts) := by
  intro b hb
  obtain ⟨t, ht, hb⟩ := List.mem_flatten.mp hb
  rcases mem_intersperse ht with rfl | hmem
  · obtain rfl := List.mem_singleton.mp hb
    decide
  · exact h t hmem b hb

theorem plain_formatInts (ids : List ℤ) : Plain (join [44] (ids.map formatInt)) := by
  refine plain_join fun t ht => ?_
  obtain ⟨id, -, rfl⟩ := List.mem_map.mp ht
  exact plain_toString id

theorem plain_shortioLinkID (id : ℤ) : Plain (shortioLinkID id) := by
  refine Plain.append ?_ (plain_toString id)
  unfold Plain
  decide

theorem plain_shortioLinkIDs (ids : List ℤ) : Plain (join [44] (ids.map shortioLinkID)) := by
  refine plain_join fun t ht => ?_
  obtain ⟨id, -, rfl⟩ := List.mem_map.mp ht
  exact plain_shortioLinkID id

theorem alnum_plain : ∀ b : UInt8, (GoUrl.isAlnum b = true ∨ b = 45 ∨ b = 95) → b < 128 ∧ b ≠ 0 :=
  forall_byte (by decide +kernel)

theorem plain_start (k : NewKey) : Plain k.start := by
  refine Plain.append ?_ fun b hb => alnum_plain b (k.alphabet b (List.mem_of_mem_take hb))
  unfold Plain
  decide

def named (n : ℕ) (s : Str) : Bool := s.all (fun b => b < 128 && b ≠ 0) && s.length ≤ n

theorem named_spec {n : ℕ} {s : Str} (h : named n s = true) : Plain s ∧ (runes s).length ≤ n := by
  simp only [named, Bool.and_eq_true, List.all_eq_true, decide_eq_true_eq] at h
  exact ⟨h.1, (length_runes_le s).trans h.2⟩

theorem plain_action (q : AdminRequest) : Plain (action q) ∧ (runes (action q)).length ≤ 80 := by
  refine named_spec ?_
  cases q with
  | link q => cases q <;> rfl
  | _ => rfl

theorem plain_targetType (q : AdminRequest) :
    Plain (targetType q) ∧ (runes (targetType q)).length ≤ 40 := by
  refine named_spec ?_
  cases q <;> rfl

/-! The audit. -/

theorem auditRow_fields {e row : AuditEvent} (h : auditRow e = some row) :
    row.outcome = e.outcome ∧ row.actorUserId = e.actorUserId ∧
      row.action = truncateAuditField e.action 80 ∧
      row.targetType = truncateAuditField e.targetType 40 ∧
      row.targetId = truncateAuditField e.targetId 255 := by
  simp only [auditRow, truncated, Option.bind_eq_bind, Option.bind_eq_some_iff] at h
  obtain ⟨email, -, auth, -, action, haction, type, htype, target, htarget, ip, -, agent, -,
    before, -, after, -, hrow⟩ := h
  cases hrow
  exact ⟨rfl, rfl, varchar_short haction (length_truncate _ _),
    varchar_short htype (length_truncate _ _), varchar_short htarget (length_truncate _ _)⟩

/-- The event of a request that has succeeded. -/
def success (c : Caller) (q : AdminRequest) (targetId : Str) (before after : Option Snapshot) :
    AuditEvent := c.event (action q) (targetType q) targetId .success before after

theorem matches_success {c : Caller} {q : AdminRequest} {targetId : Str}
    {before after : Option Snapshot} {row : AuditEvent}
    (htarget : ∀ t, target q = some t → targetId = t)
    (h : auditRow (success c q targetId before after) = some row) : Matches c q row := by
  obtain ⟨houtcome, hactor, haction, htype, hid⟩ := auditRow_fields h
  refine ⟨houtcome, hactor, ?_, ?_, fun t ht => ?_⟩
  · rw [haction]
    exact truncate_short (plain_action q).2
  · rw [htype]
    exact truncate_short (plain_targetType q).2
  · rw [hid, ← htarget t ht]
    rfl

/-- What the audit log asks of an event. -/
def Accepted (io : Script) (accounts : Accounts) (e : AuditEvent) : Prop :=
  (auditRow e).isSome ∧ (∃ u ∈ accounts.users.rows, u.id = e.actorUserId) ∧ Lands io

/-- The audit adds the row of an accepted event, and fails on any other. -/
theorem recordAudit_cases (io : Script) (accounts : Accounts) (log : List AuditEvent)
    (e : AuditEvent) :
    (Accepted io accounts e ∧ ∃ row, auditRow e = some row ∧
        (recordAudit io accounts log e).2 = log ++ [row]) ∨
      (¬ Accepted io accounts e ∧ (∃ err, (recordAudit io accounts log e).1 = some err) ∧
        (recordAudit io accounts log e).2 = log) := by
  unfold recordAudit statement Script.call Accepted Lands
  cases hexec : io.exec 0 with
  | some text => exact Or.inr ⟨by simp, ⟨_, rfl⟩, rfl⟩
  | none =>
    dsimp only
    cases hrow : auditRow e with
    | none => exact Or.inr ⟨by simp, ⟨_, rfl⟩, rfl⟩
    | some row =>
      have hactor : row.actorUserId = e.actorUserId := (auditRow_fields hrow).2.1
      dsimp only
      rw [hactor]
      by_cases huser : (accounts.users.find (·.id = e.actorUserId)).isSome
      · obtain ⟨u, hu⟩ := Option.isSome_iff_exists.mp huser
        have hmem : ∃ u ∈ accounts.users.rows, u.id = e.actorUserId :=
          ⟨u, List.mem_of_find?_eq_some hu, by simpa using List.find?_some hu⟩
        rw [if_pos huser]
        unfold commitTx
        cases hcommit : io.commit with
        | done => exact Or.inl ⟨⟨rfl, hmem, rfl, by simp⟩, row, rfl, rfl⟩
        | failed text applied =>
          cases applied with
          | true => exact Or.inl ⟨⟨rfl, hmem, rfl, by simp⟩, row, rfl, rfl⟩
          | false => exact Or.inr ⟨fun h => h.2.2.2 text rfl, ⟨_, rfl⟩, rfl⟩
      · rw [if_neg huser]
        refine Or.inr ⟨fun h => huser ?_, ⟨_, rfl⟩, rfl⟩
        obtain ⟨u, hu, hid⟩ := h.2.1
        exact List.find?_isSome.mpr ⟨u, hu, by simpa using hid⟩

/-! What a handler leaves before its audit. -/

/-- There are as many keys as before, or one is new and not revoked. -/
def KeysStand (a b : World) : Prop :=
  b.accounts.keys.rows.length = a.accounts.keys.rows.length ∨
    ∃ k, b.accounts.keys.rows = a.accounts.keys.rows ++ [k] ∧ k.revokedAt = none

theorem KeysStand.not_revoked {a b : World} (h : KeysStand a b) : ¬ Revoked a b := by
  rintro ⟨-, k, hrows, hrevoked⟩
  rcases h with hlength | ⟨k', hrows', hfresh⟩
  · rw [hrows, List.length_append, List.length_singleton] at hlength
    omega
  · rw [hrows, List.append_cancel_left_eq] at hrows'
    obtain rfl := (List.cons.inj hrows').1
    rw [hfresh] at hrevoked
    cases hrevoked

/-- A handler answers without an audit, or has refused and audits that, or has written and audits
that; a created key can still be revoked. -/
inductive Shape (w : World) (c : Caller) (calls : Calls) (q : AdminRequest) :
    Ending × World → Prop where
  | silent (r : Response) (w' : World) (audits : w'.audits = w.audits) (keys : KeysStand w w') :
      Shape w c calls q (.respond r, w')
  | denied (a t i : Str) (ok : Response) :
      Shape w c calls q (.record (c.event a t i .denied none none) ok id, w)
  | done (targetId : Str) (before after : Option Snapshot) (ok : Response) (w' : World)
      (plain : Plain targetId) (names : ∀ t, target q = some t → targetId = t)
      (other : ∀ name, q ≠ .createKey name) (audits : w'.audits = w.audits)
      (keys : KeysStand w w') :
      Shape w c calls q (.record (success c q targetId before after) ok id, w')
  | created (name : Str) (request : q = .createKey name) (start : Str) (after : Option Snapshot)
      (ok : Response) (w' : World) (k : KeyRow) (plain : Plain start)
      (audits : w'.audits = w.audits)
      (others : SameTables w { w' with accounts := { w'.accounts with keys := w.accounts.keys } })
      (rows : w'.accounts.keys.rows = w.accounts.keys.rows ++ [k]) (fresh : k.revokedAt = none)
      (own : ownKey c.principal.actual.id k.id (keyScopeOf c) k = true) :
      Shape w c calls q (.record (success c q start none after) ok (revokeAfter c calls k.id), w')

/-- A link handler writes links only. -/
theorem shape_run {w w' : World} {c : Caller} {calls : Calls} {call : Call}
    {result : Except Err (List Link)} (h : w.run c calls call = (result, w')) :
    w'.audits = w.audits ∧ KeysStand w w' := by
  obtain ⟨-, rfl⟩ := Prod.mk.inj h
  exact ⟨rfl, Or.inl rfl⟩

theorem shape_same {w : World} {c : Caller} {calls : Calls} {q : AdminRequest} (r : Response) :
    Shape w c calls q (.respond r, w) := .silent r w rfl (Or.inl rfl)

theorem shape_requireDelete {w : World} {c : Caller} {calls : Calls} {q : AdminRequest}
    {a t i : Str} {rest : Ending × World} (h : Shape w c calls q rest) :
    Shape w c calls q (w.requireDelete c a t i rest) := by
  unfold World.requireDelete
  split
  · exact h
  · exact .denied a t i _

theorem shape_createLink (server : Server) (w : World) (c : Caller) (calls : Calls)
    (set : LinkPayload.Payload) : Shape w c calls (.link (.create set))
      (LinkHandlers.createLink server w c calls set) := by
  unfold LinkHandlers.createLink
  split
  · exact shape_same _
  split
  · rename_i hrun
    exact .silent _ _ (shape_run hrun).1 (shape_run hrun).2
  rename_i w' hrun
  split
  · exact .silent _ _ (shape_run hrun).1 (shape_run hrun).2
  · exact .done _ none _ _ w' (plain_toString _) (fun t ht => by cases ht) (by simp)
      (shape_run hrun).1 (shape_run hrun).2

theorem shape_shortioLinks (server : Server) (w : World) (c : Caller) (calls : Calls)
    (p : ShortioPayload) : Shape w c calls (.link (.shortioCreate p))
      (shortioLinks server w c calls p) := by
  unfold shortioLinks
  split
  · exact shape_same _
  split
  · exact shape_same _
  split
  · rename_i w' hrun
    have hsilent (r : Response) : Shape w c calls (.link (.shortioCreate p)) (.respond r, w') :=
      .silent r w' (shape_run hrun).1 (shape_run hrun).2
    dsimp only
    split
    · split
      · split <;> exact hsilent _
      · exact hsilent _
    · exact hsilent _
  · rename_i w' hrun
    split
    · exact .silent _ _ (shape_run hrun).1 (shape_run hrun).2
    · exact .done _ none _ _ w' (plain_toString _) (fun t ht => by cases ht) (by simp)
        (shape_run hrun).1 (shape_run hrun).2

theorem shape_importLinks (server : Server) (w : World) (c : Caller) (calls : Calls)
    (rows : List Link) (errorsByRow : List (ℕ × Str)) (dryRun : Bool) :
    Shape w c calls (.link (.importRows rows errorsByRow dryRun))
      (importLinks server w c calls rows errorsByRow dryRun) := by
  unfold importLinks
  split
  · exact shape_same _
  split
  · exact shape_same _
  split
  · rename_i hrun
    exact .silent _ _ (shape_run hrun).1 (shape_run hrun).2
  · rename_i w' hrun
    exact .done _ none _ _ w' (plain_toString _) (fun t ht => by cases ht) (by simp)
      (shape_run hrun).1 (shape_run hrun).2

/-- The two PATCH handlers of links. -/
theorem shape_editLinks (server : Server) (w : World) (c : Caller) (calls : Calls) (p : Patch)
    (texts : EditTexts) {q : LinkRequest} (haction : texts.action = action (.link q))
    (hplain : ∀ links, Plain (texts.targetId links))
    (hnames : ∀ links t, target (.link q) = some t → texts.targetId links = t) :
    Shape w c calls (.link q) (editLinks server w c calls p texts) := by
  unfold editLinks
  split
  · exact shape_same _
  split
  · exact shape_same _
  split
  · exact shape_same _
  split
  · exact .silent _ _ rfl (Or.inl rfl)
  dsimp only
  split
  · exact .silent _ _ rfl (Or.inl rfl)
  · rw [haction]
    exact .done _ _ _ _ _ (hplain _) (hnames _) (by simp) rfl (Or.inl rfl)

/-- The four DELETE handlers of links. -/
theorem shape_deleteLinks (w : World) (c : Caller) (calls : Calls) (readBack : ReadBack)
    (call : Call) (texts : DeleteTexts) {q : LinkRequest}
    (haction : texts.action = action (.link q)) (hplain : Plain texts.targetId)
    (hnames : ∀ t, target (.link q) = some t → texts.targetId = t) :
    Shape w c calls (.link q) (deleteLinks w c calls readBack call texts) := by
  refine shape_requireDelete ?_
  split
  · exact shape_same _
  split
  · rename_i hrun
    exact .silent _ _ (shape_run hrun).1 (shape_run hrun).2
  · rename_i w' hrun
    rw [haction]
    exact .done _ _ none _ w' hplain hnames (by simp) (shape_run hrun).1 (shape_run hrun).2

theorem shape_link (server : Server) (w : World) (c : Caller) (calls : Calls) (q : LinkRequest) :
    Shape w c calls (.link q) (LinkHandlers.handle server w c calls q) := by
  have hnone {x : Str} (t : Str) (h : (none : Option Str) = some t) : x = t := by cases h
  cases q with
  | list | page | byID => exact shape_same _
  | create set => exact shape_createLink server w c calls set
  | edit link set =>
    exact shape_editLinks server w c calls _ _ rfl (fun _ => plain_toString link)
      fun _ t ht => Option.some.inj ht
  | bulkEdit links set =>
    exact shape_editLinks server w c calls _ editMany rfl (fun _ => plain_toString _)
      fun _ t ht => hnone t ht
  | delete link =>
    exact shape_deleteLinks w c calls _ _ _ rfl (plain_toString link) fun t ht => Option.some.inj ht
  | bulkDelete links set =>
    simp only [LinkHandlers.handle, bulkDelete]
    split
    · exact shape_same _
    · exact shape_deleteLinks w c calls _ _ _ rfl (plain_formatInts links)
        fun t ht => Option.some.inj ht
  | importRows rows errorsByRow dryRun =>
    exact shape_importLinks server w c calls rows errorsByRow dryRun
  | shortioCreate p => exact shape_shortioLinks server w c calls p
  | shortioDelete path =>
    simp only [LinkHandlers.handle, shortioLinkByID]
    split
    · exact shape_same _
    · rename_i link hpath
      refine shape_deleteLinks w c calls _ _ _ rfl (plain_toString link) fun t ht => ?_
      rw [target, hpath] at ht
      exact Option.some.inj ht
  | shortioDeleteBulk linkIds =>
    simp only [LinkHandlers.handle, shortioDeleteBulk]
    split
    · exact shape_same _
    split
    · exact shape_same _
    · rename_i links hlinks
      refine shape_deleteLinks w c calls _ _ _ rfl (plain_shortioLinkIDs links) fun t ht => ?_
      rw [target, hlinks] at ht
      exact Option.some.inj ht

/-! Users, domains and keys. -/

theorem keys_createUser (io : Script) (unicode : Unicode) (tenants : List ℤ) (s : Accounts)
    (email name : Str) (role : Role) (tenantId : Option ℤ) (hash : Option Str) :
    (createUser io unicode tenants s email name role tenantId hash).2.keys = s.keys := by
  unfold createUser
  dsimp only
  rcases statement_state io { s with nextUserId := s.nextUserId + 1 } _ with heq |
      ⟨after, hresult, heq⟩
  · rw [heq]
  · rw [heq]
    split at hresult
    · split at hresult
      · split at hresult
        · cases hresult
          rfl
        · cases hresult
      · cases hresult
    · cases hresult

theorem keys_setUserActiveWrite (io : Script) (s : Accounts) (user : ℤ) (active : Bool) :
    (setUserActiveWrite io s user active).2.keys.rows.length = s.keys.rows.length := by
  unfold setUserActiveWrite
  rcases inTx_state io s _ with heq | ⟨tx, hbody, heq⟩
  · rw [heq]
  · rw [heq]
    split at hbody
    · cases hbody
    rename_i tx₁ hcall
    have hok := call_ok hcall
    split at hok
    · cases hok
    cases hok
    split at hbody
    · cases hbody
      rfl
    · have hok := call_ok hbody
      cases hok
      exact List.length_map _

theorem keys_setDeletionAccessWrite (io : Script) (s : Accounts) (user : ℤ) (enabled : Bool) :
    (setDeletionAccessWrite io s user enabled).2.keys = s.keys := by
  unfold setDeletionAccessWrite
  have hstate := statement_state io s (.ok { s with
    users := s.users.update (·.id = user) (setAccess enabled) (keeps_setAccess enabled) })
  split <;> rename_i hrun <;> rw [hrun] at hstate <;> dsimp only at hstate ⊢ <;>
    rcases hstate with heq | ⟨after, hresult, heq⟩
  · rw [heq]
  · rw [heq, ← Except.ok.inj hresult]
  · rw [heq]
  · rw [heq, ← Except.ok.inj hresult]

theorem keys_revokeAPIKey (io : Script) (s : Accounts) (userId key : ℤ) (scope : Str) :
    (revokeAPIKey io s userId key scope).2.keys.rows.length = s.keys.rows.length := by
  unfold revokeAPIKey
  have hstate := statement_state io s (.ok { s with
    keys := s.keys.update (ownKey userId key scope) (revoke (nowOf io)) (keeps_revoke (nowOf io)) })
  split <;> rename_i hrun <;> rw [hrun] at hstate <;> dsimp only at hstate ⊢ <;>
    rcases hstate with heq | ⟨after, hresult, heq⟩
  · rw [heq]
  · rw [heq, ← Except.ok.inj hresult]
    exact List.length_map _
  · rw [heq]
  · rw [heq, ← Except.ok.inj hresult]
    exact List.length_map _

/-- The two PATCH handlers of users. -/
theorem shape_changeUser (w : World) (c : Caller) (calls : Calls) (user : ℤ)
    (write : Option Err × Accounts) (failed : Err → Response) {q : AdminRequest}
    (hwrite : write.2.keys.rows.length = w.accounts.keys.rows.length)
    (htype : targetType q = lit "user") (hnames : target q = some (formatInt user))
    (hother : ∀ name, q ≠ .createKey name) :
    Shape w c calls q (changeUser w c calls user write failed (action q)) := by
  have hsilent (r : Response) : Shape w c calls q (.respond r, { w with accounts := write.2 }) :=
    .silent r _ rfl (Or.inl hwrite)
  unfold changeUser
  split
  · exact shape_same _
  split
  · exact shape_same _
  split
  · exact shape_same _
  split
  · exact hsilent _
  dsimp only
  split
  · exact hsilent _
  · rw [← htype]
    refine .done _ _ _ _ _ (plain_toString user) (fun t ht => ?_) hother rfl (Or.inl hwrite)
    rw [hnames] at ht
    exact Option.some.inj ht

theorem shape_customers (server : Server) (w : World) (c : Caller) (calls : Calls) (n : NewUser) :
    Shape w c calls (.createUser n) (customers server w c calls n) := by
  unfold customers
  split
  · exact shape_same _
  split
  · exact shape_same _
  split
  · exact shape_same _
  rename_i role tenantId _ _
  have hkeys := keys_createUser calls.io server.unicode w.domains.tenants w.accounts n.email n.name
    role tenantId calls.passwordHash
  split <;> rename_i accounts hrun <;> rw [hrun] at hkeys
  · exact .silent _ _ rfl (Or.inl (congrArg (fun t => t.rows.length) hkeys))
  · exact .done _ none _ _ _ (plain_toString _) (fun t ht => by cases ht) (by simp) rfl
      (Or.inl (congrArg (fun t => t.rows.length) hkeys))

theorem shape_createDomain (server : Server) (w : World) (c : Caller) (calls : Calls)
    (tenantId : ℤ) (domain : Str) : Shape w c calls (.createDomain tenantId domain)
      (createDomain server w c calls tenantId domain) := by
  unfold createDomain
  dsimp only
  split
  · exact .silent _ _ rfl (Or.inl rfl)
  split
  · exact .silent _ _ rfl (Or.inl rfl)
  · exact .done _ none _ _ _ (plain_toString _) (fun t ht => by cases ht) (by simp) rfl (Or.inl rfl)

theorem shape_forAdmins {w : World} {c : Caller} {calls : Calls} {q : AdminRequest}
    {rest : Ending × World} (h : Shape w c calls q rest) :
    Shape w c calls q (forAdmins w c rest) := by
  unfold forAdmins
  split
  · exact shape_same _
  · exact h

theorem shape_verifyDomainByID (server : Server) (w : World) (c : Caller) (calls : Calls)
    (domain : ℤ) : Shape w c calls (.verifyDomain domain)
      (verifyDomainByID server w c calls domain) := by
  refine shape_forAdmins ?_
  split
  · exact shape_same _
  split
  · exact shape_same _
  split
  · exact .silent _ _ rfl (Or.inl rfl)
  · exact .done _ _ _ _ _ (plain_toString domain) (fun t ht => Option.some.inj ht) (by simp) rfl
      (Or.inl rfl)

theorem shape_patchDomain (w : World) (c : Caller) (calls : Calls) (domain : ℤ) (url : Str) :
    Shape w c calls (.patchDomain domain url) (patchDomain w c calls domain url) := by
  refine shape_forAdmins ?_
  split
  · exact shape_same _
  split
  · exact .silent _ _ rfl (Or.inl rfl)
  dsimp only
  split
  · exact .silent _ _ rfl (Or.inl rfl)
  · exact .done _ _ _ _ _ (plain_toString domain) (fun t ht => Option.some.inj ht) (by simp) rfl
      (Or.inl rfl)

theorem shape_deleteDomain (w : World) (c : Caller) (calls : Calls) (domain : ℤ) :
    Shape w c calls (.deleteDomain domain) (deleteDomain w c calls domain) := by
  refine shape_forAdmins (shape_requireDelete ?_)
  split
  · exact shape_same _
  split
  · exact .silent _ _ rfl (Or.inl rfl)
  · exact .done _ _ none _ _ (plain_toString domain) (fun t ht => Option.some.inj ht) (by simp) rfl
      (Or.inl rfl)

theorem shape_apiKeyByID (w : World) (c : Caller) (calls : Calls) (key : ℤ) :
    Shape w c calls (.revokeKey key) (apiKeyByID w c calls key) := by
  refine shape_requireDelete ?_
  have hkeys := keys_revokeAPIKey calls.io w.accounts c.principal.actual.id key (keyScopeOf c)
  split <;> rename_i accounts hrun <;> rw [hrun] at hkeys
  · exact .silent _ _ rfl (Or.inl hkeys)
  · exact .done _ _ none _ _ (plain_toString key) (fun t ht => Option.some.inj ht) (by simp) rfl
      (Or.inl hkeys)

/-- A statement that has no effect fails. -/
theorem statement_cases {σ : Type*} (io : Script) (before : σ) (result : Except Err σ) :
    ((statement io before result).1 ≠ none ∧ (statement io before result).2 = before) ∨
      ∃ after, result = .ok after ∧ (statement io before result).2 = after := by
  unfold statement Script.call
  cases io.exec 0 with
  | some text => exact Or.inl ⟨by simp, rfl⟩
  | none =>
    cases result with
    | error e => exact Or.inl ⟨by simp, rfl⟩
    | ok after =>
      by_cases hcommit : (commitTx io before after).1 = none
      · exact Or.inr ⟨after, rfl, (commitTx_none hcommit).1⟩
      · exact (commitTx_state io before after).symm.imp (fun h => ⟨hcommit, h⟩)
          fun h => ⟨after, rfl, h⟩

/-- A key that is reported, and possibly one that is not, is stored; nothing else changes. -/
theorem createAPIKey_cases (io : Script) (s : Accounts) (userId : ℤ) (name hash start scope : Str) :
    ((createAPIKey io s userId name hash start scope).1.1 ≠ none ∧
        (createAPIKey io s userId name hash start scope).2.keys = s.keys) ∨
      ∃ k : KeyRow, k.id = s.nextKeyId ∧ k.userId = userId ∧ k.scope = keyScope scope ∧
        k.revokedAt = none ∧
        (createAPIKey io s userId name hash start scope).2.users = s.users ∧
        (createAPIKey io s userId name hash start scope).2.keys.rows = s.keys.rows ++ [k] := by
  unfold createAPIKey
  dsimp only
  rcases statement_cases io { s with nextKeyId := s.nextKeyId + 1 } _ with ⟨hfail, heq⟩ |
      ⟨after, hresult, heq⟩
  · exact Or.inl ⟨hfail, by rw [heq]⟩
  · rw [heq]
    split at hresult
    · split at hresult
      · split at hresult
        · rename_i keys hinsert
          cases hresult
          exact Or.inr ⟨_, rfl, rfl, rfl, rfl, rfl, (Table.insert_eq_some.mp hinsert).2⟩
        · cases hresult
      · cases hresult
    · cases hresult

theorem ownKey_created {c : Caller} {k : KeyRow} (huser : k.userId = c.principal.actual.id)
    (hscope : k.scope = keyScope (keyScopeOf c)) :
    ownKey c.principal.actual.id k.id (keyScopeOf c) k = true := by
  have hkeep : keyScope (keyScopeOf c) = keyScopeOf c := by
    unfold keyScopeOf
    split <;> rfl
  rw [hkeep] at hscope
  simp only [ownKey, huser, hscope, decide_true, Bool.true_and, Bool.or_eq_true, decide_eq_true_eq]
  exact (em (keyScopeOf c = lit "user")).symm

theorem shape_apiKeys (w : World) (c : Caller) (calls : Calls) (name : Str) :
    Shape w c calls (.createKey name) (apiKeys w c calls name) := by
  unfold apiKeys
  split
  · exact shape_same _
  dsimp only
  split
  · exact shape_same _
  split
  · exact shape_same _
  rename_i key _
  have hcases := createAPIKey_cases calls.io w.accounts c.principal.actual.id (trimSpace name)
    key.hash key.start (keyScopeOf c)
  have hid : (createAPIKey calls.io w.accounts c.principal.actual.id (trimSpace name) key.hash
    key.start (keyScopeOf c)).1.2 = w.accounts.nextKeyId := rfl
  split <;> rename_i accounts hrun <;> rw [hrun] at hcases hid <;> dsimp only at hcases hid
  · rcases hcases with ⟨-, hkeys⟩ | ⟨k, -, -, -, hfresh, -, hrows⟩
    · exact .silent _ _ rfl (Or.inl (congrArg (fun t => t.rows.length) hkeys))
    · exact .silent _ _ rfl (Or.inr ⟨k, hrows, hfresh⟩)
  · rcases hcases with ⟨hfail, -⟩ | ⟨k, hkey, huser, hscope, hfresh, husers, hrows⟩
    · exact absurd rfl hfail
    · rw [hid, ← hkey]
      exact .created name rfl key.start _ _ _ k (plain_start key) rfl ⟨rfl, rfl, rfl, husers, rfl⟩
        hrows hfresh (ownKey_created huser hscope)

theorem shape_handle (server : Server) (w : World) (c : Caller) (calls : Calls)
    (q : AdminRequest) : Shape w c calls q (handle server w c calls q) := by
  cases q with
  | link q => exact shape_link server w c calls q
  | createUser n => exact shape_customers server w c calls n
  | setActive user active =>
    exact shape_changeUser w c calls user _ _
      (keys_setUserActiveWrite calls.io w.accounts user active) rfl rfl (by simp)
  | setDeletionAccess user enabled =>
    exact shape_changeUser w c calls user _ _ (congrArg (fun t => t.rows.length)
      (keys_setDeletionAccessWrite calls.io w.accounts user enabled)) rfl rfl (by simp)
  | createDomain tenantId domain => exact shape_createDomain server w c calls tenantId domain
  | verifyDomain domain => exact shape_verifyDomainByID server w c calls domain
  | patchDomain domain url => exact shape_patchDomain w c calls domain url
  | deleteDomain domain => exact shape_deleteDomain w c calls domain
  | createKey name => exact shape_apiKeys w c calls name
  | revokeKey key => exact shape_apiKeyByID w c calls key

/-! The end of a handler. -/

theorem statement_lands {σ : Type*} (io : Script) (before after : σ) :
    (Lands io ∧ (statement io before (.ok after)).2 = after) ∨
      (¬ Lands io ∧ (statement io before (.ok after)).2 = before) := by
  unfold Lands statement Script.call commitTx
  cases io.exec 0 with
  | some text => exact Or.inr ⟨by simp, rfl⟩
  | none =>
    cases hcommit : io.commit with
    | done => exact Or.inl ⟨⟨rfl, by simp⟩, rfl⟩
    | failed text applied =>
      cases applied with
      | true => exact Or.inl ⟨⟨rfl, by simp⟩, rfl⟩
      | false => exact Or.inr ⟨fun h => h.2 text rfl, rfl⟩

theorem revokeAPIKey_state (io : Script) (s : Accounts) (userId key : ℤ) (scope : Str) :
    (revokeAPIKey io s userId key scope).2 = (statement io s (.ok { s with
      keys := s.keys.update (ownKey userId key scope) (revoke (nowOf io))
        (keeps_revoke (nowOf io)) })).2 := by
  unfold revokeAPIKey
  split <;> rename_i hrun <;> rw [hrun]

/-- The revocation of the key that was just created leaves it revoked, or it does nothing. -/
theorem revokeAfter_cases {w w' : World} {c : Caller} {calls : Calls} {k : KeyRow}
    (hrows : w'.accounts.keys.rows = w.accounts.keys.rows ++ [k])
    (hown : ownKey c.principal.actual.id k.id (keyScopeOf c) k = true) :
    (Lands calls.revoke ∧ (revokeAfter c calls k.id w').accounts.users = w'.accounts.users ∧
        ∃ k', (revokeAfter c calls k.id w').accounts.keys.rows = w.accounts.keys.rows ++ [k'] ∧
          k'.revokedAt.isSome) ∨
      (¬ Lands calls.revoke ∧ revokeAfter c calls k.id w' = w') := by
  unfold revokeAfter
  rw [revokeAPIKey_state]
  rcases statement_lands calls.revoke w'.accounts { w'.accounts with
      keys := w'.accounts.keys.update (ownKey c.principal.actual.id k.id (keyScopeOf c))
        (revoke (nowOf calls.revoke)) (keeps_revoke (nowOf calls.revoke)) } with
    ⟨hlands, heq⟩ | ⟨hlands, heq⟩ <;> rw [heq]
  · refine Or.inl ⟨hlands, rfl, revoke (nowOf calls.revoke) k, ?_, rfl⟩
    have hdistinct := w'.accounts.keys.distinct
    rw [hrows, List.pairwise_append] at hdistinct
    have hold : ∀ r ∈ w.accounts.keys.rows,
        ¬ ownKey c.principal.actual.id k.id (keyScopeOf c) r = true := by
      intro r hr hmatch
      simp only [ownKey, Bool.and_eq_true, decide_eq_true_eq] at hmatch
      exact hdistinct.2.2 r hr k (List.mem_singleton_self k) (Or.inl hmatch.1)
    dsimp only
    rw [Table.rows_update, hrows, List.map_append, List.map_singleton, if_pos hown]
    congr 1
    conv_rhs => rw [← List.map_id w.accounts.keys.rows]
    exact List.map_congr_left fun r hr => if_neg (hold r hr)
  · exact Or.inr ⟨hlands, rfl⟩

theorem accepted_success {io : Script} {accounts : Accounts} {c : Caller} {q : AdminRequest}
    {targetId : Str} {before after : Option Snapshot} (hplain : Plain targetId) :
    Accepted io accounts (success c q targetId before after) ↔
      c.readable ∧ Recordable before ∧ Recordable after ∧
        (∃ u ∈ accounts.users.rows, u.id = c.principal.actual.id) ∧ Lands io := by
  unfold Accepted success
  rw [auditRow_isSome (plain_action q).1 (plain_targetType q).1 hplain]
  simp only [and_assoc]
  rfl

theorem not_audited {w out : World} {c : Caller} {q : AdminRequest}
    (haudits : out.audits = w.audits) (hchanged : ¬ SameTables w out) (hkey : ¬ Revoked w out) :
    ¬ Audited w c q out := by
  rintro (hsame | ⟨row, hrow, -⟩ | hrevoked)
  · exact hchanged hsame
  · rw [haudits] at hrow
    have hlength := congrArg List.length hrow
    rw [List.length_append, List.length_singleton] at hlength
    omega
  · exact hkey hrevoked

/-- An accepted event is in the log; otherwise the handler undoes what it can. -/
theorem conclude_cases (calls : Calls) (e : AuditEvent) (ok : Response) (undo : World → World)
    (w : World) (hundo : ∀ w, (undo w).audits = w.audits) :
    (Accepted calls.audit w.accounts e ∧ ∃ row, auditRow e = some row ∧
        (conclude calls (.record e ok undo, w)).2.audits = w.audits ++ [row]) ∨
      (¬ Accepted calls.audit w.accounts e ∧
        (conclude calls (.record e ok undo, w)).2 = undo w) := by
  unfold conclude
  dsimp only
  rcases recordAudit_cases calls.audit w.accounts w.audits e with
    ⟨haccepted, row, hrow, hlog⟩ | ⟨hrefused, ⟨err, herr⟩, hlog⟩
  · refine Or.inl ⟨haccepted, row, hrow, ?_⟩
    split <;> rename_i log hrun <;> rw [hrun] at hlog <;> dsimp only at hlog ⊢
    · rw [hundo, hlog]
    · exact hlog
  · refine Or.inr ⟨hrefused, ?_⟩
    split <;> rename_i log hrun <;> rw [hrun] at hlog herr <;> dsimp only at hlog herr
    · rw [hlog]
    · cases herr

theorem recorded_success {c : Caller} {calls : Calls} {w : World} {q : AdminRequest}
    {targetId : Str} {before after : Option Snapshot} {ok : Response} {undo : World → World}
    (hplain : Plain targetId) :
    Recorded c calls w (.record (success c q targetId before after) ok undo) ↔
      Accepted calls.audit w.accounts (success c q targetId before after) := by
  rw [accepted_success hplain]
  exact ⟨fun h => h.2, fun h => ⟨rfl, h⟩⟩

/-- A handler of one of the shapes is audited exactly when a change it leaves is recorded or
compensated. -/
theorem audited_of_shape {w : World} {c : Caller} {calls : Calls} {q : AdminRequest}
    {out : Ending × World} (h : Shape w c calls q out) :
    Audited w c q (conclude calls out).2 ↔
      (¬ SameTables w out.2 → Recorded c calls out.2 out.1 ∨ Compensated calls q out.1) := by
  cases h with
  | silent r w' audits keys =>
    simp only [conclude, Recorded, Compensated, or_self, imp_false, not_not]
    constructor
    · intro haudited
      by_contra hchanged
      exact not_audited audits hchanged keys.not_revoked haudited
    · exact Or.inl
  | denied a t i ok =>
    refine iff_of_true (Or.inl ?_) fun hchanged => absurd (SameTables.refl w) hchanged
    unfold conclude
    dsimp only
    split <;> exact ⟨rfl, rfl, rfl, rfl, rfl⟩
  | done targetId before after ok w' plain names other audits keys =>
    have hcompensated : ¬ Compensated calls q
        (.record (success c q targetId before after) ok id) := by
      rintro ⟨⟨name, hname⟩, -⟩
      exact other name hname
    rw [recorded_success plain]
    rcases conclude_cases calls (success c q targetId before after) ok id w' (fun _ => rfl) with
      ⟨haccepted, row, hrow, hlog⟩ | ⟨hrefused, heq⟩
    · refine iff_of_true (Or.inr (Or.inl ⟨row, ?_, matches_success names hrow⟩))
        fun _ => Or.inl haccepted
      rw [hlog, audits]
    · rw [heq]
      constructor
      · intro haudited hchanged
        exact absurd haudited (not_audited audits hchanged keys.not_revoked)
      · intro himp
        refine Or.inl ?_
        by_contra hchanged
        exact (himp hchanged).elim hrefused hcompensated
  | created name request start after ok w' k plain audits others rows fresh own =>
    have hchanged : ¬ SameTables w w' := fun hsame => by
      have hlength := congrArg (fun t => t.rows.length) hsame.keys
      rw [rows, List.length_append, List.length_singleton] at hlength
      omega
    rw [recorded_success plain]
    have hnames : ∀ t, target q = some t → start = t := by
      rw [request]
      intro t ht
      cases ht
    rcases conclude_cases calls (success c q start none after) ok (revokeAfter c calls k.id) w'
        (fun _ => rfl) with
      ⟨haccepted, row, hrow, hlog⟩ | ⟨hrefused, heq⟩
    · refine iff_of_true (Or.inr (Or.inl ⟨row, ?_, matches_success hnames hrow⟩))
        fun _ => Or.inl haccepted
      rw [hlog, audits]
    · rw [heq]
      rcases revokeAfter_cases rows own with
        ⟨hlands, husers, k', hrows', hrevoked⟩ | ⟨hlands, hkeep⟩
      · refine iff_of_true (Or.inr (Or.inr ⟨?_, k', hrows', hrevoked⟩))
          fun _ => Or.inr ⟨⟨name, request⟩, hlands⟩
        exact ⟨others.links, others.geoTargets, others.domains, husers.trans others.users, rfl⟩
      · rw [hkeep]
        have hstand : KeysStand w w' := Or.inr ⟨k, rows, fresh⟩
        refine iff_of_false (not_audited audits hchanged hstand.not_revoked) fun himp => ?_
        exact (himp hchanged).elim hrefused fun h => hlands h.2

/-- A write of the administration is audited, or undone, exactly when its handler reports it and
the audit log takes the event, or when it is the creation of a key and the revocation lands. -/
theorem writes_audited_iff (server : Server) (w : World) (c : Caller) (calls : Calls)
    (q : AdminRequest) :
    Audited w c q (serve server w c calls q).2 ↔
      (¬ SameTables w (handle server w c calls q).2 →
        Recorded c calls (handle server w c calls q).2 (handle server w c calls q).1 ∨
          Compensated calls q (handle server w c calls q).1) :=
  audited_of_shape (shape_handle server w c calls q)

/-! A superadmin whose User-Agent is one byte that starts no encoding. -/

def staffed : World :=
  { LinkResponses.colleagues with
    accounts := ⟨⟨[⟨1, none, lit "a@example.com", lit "A", .superadmin, true, true, []⟩],
      List.pairwise_singleton _ _⟩, 2, .empty, 1⟩ }

def binary : Caller where
  principal := LinkScopes.effectivePrincipal ⟨1, none, .superadmin⟩ (lit "admin") (lit "api_key")
  email := lit "a@example.com"
  deletionAccess := true
  request :=
    { LinkResponses.request with
      userAgent := [255]
      headers := by decide }
  stored := by decide
  auth := by decide

/-- The link is deleted and the audit log stays empty. -/
theorem deleted_unaudited :
    ¬ Audited staffed binary (.link (.delete 1))
      (serve LinkResponses.deployed staffed binary LinkResponses.healthy
        (.link (.delete 1))).2 := by
  have hdeleted : (serve LinkResponses.deployed staffed binary LinkResponses.healthy
      (.link (.delete 1))).2.db.links.rows.map LinkRow.deletedAt ≠
        staffed.db.links.rows.map LinkRow.deletedAt := by decide
  have haudits : (serve LinkResponses.deployed staffed binary LinkResponses.healthy
      (.link (.delete 1))).2.audits = [] := by decide
  have hkeys : (serve LinkResponses.deployed staffed binary LinkResponses.healthy
      (.link (.delete 1))).2.accounts.keys.rows = [] := by decide
  rintro (hsame | ⟨row, hrow, -⟩ | ⟨-, k, hrow, -⟩)
  · exact hdeleted (by rw [hsame.links])
  · rw [haudits] at hrow
    exact List.append_ne_nil_of_right_ne_nil _ (List.cons_ne_nil row []) hrow.symm
  · rw [hkeys] at hrow
    exact List.append_ne_nil_of_right_ne_nil _ (List.cons_ne_nil k []) hrow.symm

end AuditTrail
