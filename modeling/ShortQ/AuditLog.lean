import ShortQ.AccountRows
import ShortQ.HttpRequest
import ShortQ.TenantDomains

/-! # The audit log

`audit`, `requireDelete` and `RecordAudit`, with what they write of a request. -/
namespace AuditLog

open AccountRows
open GoText
open GoTime (Time)
open HttpRequest
open LinkScopes (Principal)
open Models
open Runes
open Schema
open TenantDomains (DomainRow)
open Transaction

inductive Outcome where
  | success | denied
  deriving DecidableEq, Repr

structure LinkRecord where
  id : ℤ
  slug : Str
  targetUrl : Str
  title : Str
  visibility : Str
  redirectCode : ℤ
  expiresAt : Option Time
  maxClicks : Option ℤ
  passwordProtected : Bool
  tags : List Str
  deriving DecidableEq, Repr

/-- The objects that are written as JSON. A role or a state is none in the zero record, which
is written where a row could not be read. -/
inductive Snapshot where
  | link (l : LinkRecord)
  | links (ls : List LinkRecord)
  | user (id : ℤ) (email name : Str) (role : Option Role) (tenantId : Option ℤ)
      (deletionAccess active : Bool)
  | domain (id tenantId : ℤ) (domain : Str) (active : Option Bool) (notFoundUrl : Str)
  | key (name keyPrefix scope : Str)
  | revoked (id : ℤ) (scope : Str)
  deriving DecidableEq, Repr

def linkRecord (l : Link) : LinkRecord :=
  ⟨l.id, l.slug, l.targetUrl, l.title, l.visibility, l.redirectCode, l.expiresAt, l.maxClicks,
    l.passwordProtected, l.tags⟩

def linkAudit (l : Link) : Snapshot := .link (linkRecord l)

def userAudit : Except Err UserRow → Snapshot
  | .ok u => .user u.id u.email u.name u.role u.tenantId u.deletionAccess u.active
  | .error _ => .user 0 [] [] none none false false

def domainAudit : Except Err DomainRow → Snapshot
  | .ok d => .domain d.id d.tenantId d.domain d.active d.notFoundUrl
  | .error _ => .domain 0 0 [] none []

def LinkRecord.texts (l : LinkRecord) : List Str :=
  [l.slug, l.targetUrl, l.title, l.visibility] ++ l.tags

def Snapshot.texts : Snapshot → List Str
  | .link l => l.texts
  | .links ls => ls.flatMap LinkRecord.texts
  | .user _ email name .. => [email, name]
  | .domain _ _ host _ notFoundUrl => [host, notFoundUrl]
  | .key name keyPrefix scope => [name, keyPrefix, scope]
  | .revoked _ scope => [scope]

def Snapshot.times : Snapshot → List Time
  | .link l => l.expiresAt.toList
  | .links ls => ls.flatMap fun l => l.expiresAt.toList
  | _ => []

/-- `json.Marshal` fails for a year that RFC 3339 cannot write; its error is ignored and the
column is left NULL. -/
def marshalled (s : Option Snapshot) : Option Snapshot :=
  s.filter fun s => s.times.all fun t => (GoTime.formatRFC3339 t).isSome

/-- `JSONB` refuses an escaped NUL. -/
def jsonb : Option Snapshot → Option (Option Snapshot)
  | none => some none
  | some s => if s.texts.any fun t => t.contains 0 then none else some (some s)

structure AuditEvent where
  actorUserId : ℤ
  actorEmail : Str
  authType : Str
  action : Str
  targetType : Str
  targetId : Str
  outcome : Outcome
  before : Option Snapshot
  after : Option Snapshot
  ipAddress : Str
  userAgent : Str
  deriving DecidableEq, Repr

/-- `string(runes[:n])` writes each byte of an invalid encoding as U+FFFD. -/
def truncateAuditField (value : Str) (maxRunes : ℕ) : Str :=
  if (runes value).length ≤ maxRunes then value
  else toValid (bytesOf ((runes value).take maxRunes))

/-- The event with its fields cut as `RecordAudit` cuts them. -/
def truncated (e : AuditEvent) : AuditEvent :=
  { e with
    actorEmail := truncateAuditField e.actorEmail 190
    authType := truncateAuditField e.authType 24
    action := truncateAuditField e.action 80
    targetType := truncateAuditField e.targetType 40
    targetId := truncateAuditField e.targetId 255
    ipAddress := truncateAuditField e.ipAddress 64
    userAgent := truncateAuditField e.userAgent 500
    before := marshalled e.before
    after := marshalled e.after }

/-- The row an event is stored as, none where a column refuses it. -/
def auditRow (e : AuditEvent) : Option AuditEvent := do
  let e := truncated e
  let actorEmail ← varchar 190 e.actorEmail
  let authType ← varchar 24 e.authType
  let action ← varchar 80 e.action
  let targetType ← varchar 40 e.targetType
  let targetId ← varchar 255 e.targetId
  let ipAddress ← varchar 64 e.ipAddress
  let userAgent ← varchar 500 e.userAgent
  let before ← jsonb e.before
  let after ← jsonb e.after
  some
    { e with
      actorEmail := actorEmail
      authType := authType
      action := action
      targetType := targetType
      targetId := targetId
      ipAddress := ipAddress
      userAgent := userAgent
      before := before
      after := after }

/-- `RecordAudit`. The actor is a foreign key. -/
def recordAudit (io : Script) (accounts : Accounts) (log : List AuditEvent) (e : AuditEvent) :
    Option Err × List AuditEvent :=
  statement io log
    (match auditRow e with
    | none => .error .schema
    | some row =>
      if (accounts.users.find (·.id = row.actorUserId)).isSome then .ok (log ++ [row])
      else .error .schema)

/-- An authenticated request; the email is a value of `users.email`. -/
structure Caller where
  principal : Principal
  email : Str
  deletionAccess : Bool
  request : Request
  stored : varchar 190 email = some email
  auth : principal.authType ∈ [lit "session", lit "bearer", lit "api_key"]

def Caller.user (c : Caller) : User := c.principal.effective

def Caller.event (c : Caller) (action targetType targetId : Str) (outcome : Outcome)
    (before after : Option Snapshot) : AuditEvent where
  actorUserId := c.principal.actual.id
  actorEmail := c.email
  authType := c.principal.authType
  action := action
  targetType := targetType
  targetId := targetId
  outcome := outcome
  before := before
  after := after
  ipAddress := visitorIP c.request
  userAgent := c.request.userAgent

def canDelete (c : Caller) : Bool := c.principal.actual.role = .superadmin || c.deletionAccess

/-! Which events the columns accept. -/

theorem text_plain {s : Str} (h : Plain s) : text s = some s := by
  unfold text
  have hzero : 0 ∉ s := fun hmem => (h 0 hmem).2 rfl
  rw [valid_ascii fun b hb => (h b hb).1]
  simp [hzero]

theorem varchar_of_text {n : ℕ} {s : Str} (h : text s = some s) (hshort : (runes s).length ≤ n) :
    varchar n s = some s := by
  unfold varchar
  rw [if_neg (by simp [h]), if_pos hshort]

theorem truncate_short {s : Str} {n : ℕ} (h : (runes s).length ≤ n) :
    truncateAuditField s n = s := if_pos h

theorem length_truncate (s : Str) (n : ℕ) : (runes (truncateAuditField s n)).length ≤ n := by
  unfold truncateAuditField
  split
  · assumption
  · rw [runes_toValid, replaced, List.length_map, runes_take, List.length_take]
    exact Nat.min_le_left _ _

theorem truncate_plain {s : Str} (h : Plain s) (n : ℕ) : Plain (truncateAuditField s n) := by
  unfold truncateAuditField
  split
  · exact h
  · have hcut : bytesOf ((runes s).take n) = s.take n := by
      rw [runes_plain h, ← List.map_take, bytesOf, List.flatMap_map]
      simp [single]
    have htake : Plain (s.take n) := fun b hb => h b (List.mem_of_mem_take hb)
    rw [hcut, toValid_of_valid (valid_ascii fun b hb => (htake b hb).1)]
    exact htake

/-- A field of plain text is accepted after it is cut. -/
theorem varchar_plain {s : Str} (h : Plain s) (n : ℕ) :
    varchar n (truncateAuditField s n) = some (truncateAuditField s n) :=
  varchar_of_text (text_plain (truncate_plain h n)) (length_truncate s n)

theorem varchar_stored {s : Str} {n : ℕ} (h : varchar n s = some s) :
    varchar n (truncateAuditField s n) = some (truncateAuditField s n) := by
  have hshort : (runes s).length ≤ n := by
    unfold varchar at h
    split at h
    · cases h
    split at h
    · assumption
    split at h
    · have hcut := congrArg (fun t => (runes t).length) (Option.some.inj h)
      rw [runes_take, List.length_take] at hcut
      omega
    · cases h
  rw [truncate_short hshort, h]

/-- A header value is accepted when it is valid or so long that it is cut, which repairs it. -/
theorem varchar_header {s : Str} {n : ℕ} (h : s.all headerByte = true) :
    (varchar n (truncateAuditField s n)).isSome ↔ validUtf8 s = true ∨ n < (runes s).length := by
  have hzero : 0 ∉ s := fun hmem => by
    have hbyte := List.all_eq_true.mp h 0 hmem
    revert hbyte
    decide
  by_cases hshort : (runes s).length ≤ n
  · rw [truncate_short hshort, or_iff_left (by omega)]
    unfold varchar text
    rw [if_pos hshort]
    cases validUtf8 s <;> simp [hzero]
  · refine iff_of_true ?_ (Or.inr (by omega))
    have htext : text (truncateAuditField s n) = some (truncateAuditField s n) := by
      unfold truncateAuditField
      rw [if_neg hshort]
      unfold text
      have hno : 0 ∉ toValid (bytesOf ((runes s).take n)) := by
        intro hmem
        rcases mem_toValid hmem with hmem | hmem
        · refine hzero ?_
          rw [← bytesOf_runes s]
          obtain ⟨r, hr, hb⟩ := List.mem_flatMap.mp hmem
          exact List.mem_flatMap.mpr ⟨r, List.mem_of_mem_take hr, hb⟩
        · revert hmem
          decide
      rw [valid_toValid]
      simp [hno]
    rw [varchar_of_text htext (length_truncate s n)]
    rfl

/-- `JSONB` takes what is recorded of an object: none of its texts contains NUL. -/
def Recordable (s : Option Snapshot) : Prop :=
  ∀ x, marshalled s = some x → ∀ t ∈ x.texts, (0 : UInt8) ∉ t

theorem jsonb_isSome (s : Option Snapshot) : (jsonb (marshalled s)).isSome ↔ Recordable s := by
  unfold Recordable
  cases marshalled s with
  | none => simp [jsonb]
  | some x =>
    unfold jsonb
    dsimp only
    split
    · rename_i hnul
      obtain ⟨t, ht, hmem⟩ := List.any_eq_true.mp hnul
      simp only [Option.isSome_none, Bool.false_eq_true, false_iff, not_forall]
      exact ⟨x, rfl, t, ht, by simpa using hmem⟩
    · rename_i hclean
      simp only [Option.isSome_some, true_iff]
      intro y hy t ht hmem
      cases hy
      exact hclean (List.any_eq_true.mpr ⟨t, ht, by simpa using hmem⟩)

/-- The visitor's User-Agent is valid, or RecordAudit cuts it. -/
def Caller.readable (c : Caller) : Prop :=
  validUtf8 c.request.userAgent = true ∨ 500 < (runes c.request.userAgent).length

/-- Of an event with plain names, only the User-Agent and the objects can be refused. -/
theorem auditRow_isSome {c : Caller} {action targetType targetId : Str} {outcome : Outcome}
    {before after : Option Snapshot} (haction : Plain action) (htype : Plain targetType)
    (hid : Plain targetId) :
    (auditRow (c.event action targetType targetId outcome before after)).isSome ↔
      c.readable ∧ Recordable before ∧ Recordable after := by
  have hauth : Plain c.principal.authType := by
    have hmem := c.auth
    simp only [List.mem_cons, List.not_mem_nil, or_false] at hmem
    rcases hmem with h | h | h <;> rw [h] <;> unfold Plain <;> decide
  have hagent := @varchar_header c.request.userAgent 500
    (c.request.headers _ (by simp))
  simp only [auditRow, truncated, Caller.event, Option.bind_eq_bind, varchar_stored c.stored,
    varchar_plain hauth, varchar_plain haction, varchar_plain htype, varchar_plain hid,
    varchar_plain (visitorIP_short c.request).2, Option.bind_some]
  rw [Caller.readable, ← hagent, ← jsonb_isSome, ← jsonb_isSome]
  cases varchar 500 (truncateAuditField c.request.userAgent 500) <;>
    cases jsonb (marshalled before) <;> cases jsonb (marshalled after) <;> simp

end AuditLog
