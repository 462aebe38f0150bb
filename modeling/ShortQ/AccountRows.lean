import ShortQ.Hosts
import ShortQ.LinkScopes

/-! # Users and API keys

The tables `users` and `api_keys` and the store calls that the administration makes on them. -/
namespace AccountRows

open GoText (Str lit)
open GoTime (Time)
open Hosts
open Models
open RowTable
open Schema
open Transaction

structure UserRow where
  id : ℤ
  tenantId : Option ℤ
  email : Str
  name : Str
  role : Role
  deletionAccess : Bool
  active : Bool
  passwordHash : Str
  deriving DecidableEq, Repr

def userClash (a b : UserRow) : Prop := a.id = b.id ∨ a.email = b.email

instance : DecidableRel userClash := fun a b =>
  inferInstanceAs (Decidable (a.id = b.id ∨ a.email = b.email))

structure KeyRow where
  id : ℤ
  userId : ℤ
  name : Str
  keyHash : Str
  keyPrefix : Str
  scope : Str
  revokedAt : Option Time
  deriving DecidableEq, Repr

def keyClash (a b : KeyRow) : Prop := a.id = b.id ∨ a.keyHash = b.keyHash

instance : DecidableRel keyClash := fun a b =>
  inferInstanceAs (Decidable (a.id = b.id ∨ a.keyHash = b.keyHash))

/-- The identity sequences stand beside their tables. -/
@[ext]
structure Accounts where
  users : Table UserRow userClash
  nextUserId : ℤ
  keys : Table KeyRow keyClash
  nextKeyId : ℤ

/-- `CreateUser`. The hash is none where `HashPassword` failed, which the handler ignores. A
refused insert has drawn its id. -/
def createUser (io : Script) (unicode : Unicode) (tenants : List ℤ) (s : Accounts)
    (email name : Str) (role : Role) (tenantId : Option ℤ) (hash : Option Str) :
    Option Err × Accounts :=
  let drawn := { s with nextUserId := s.nextUserId + 1 }
  statement io drawn
    (match varchar 190 (unicode.toLower email), varchar 120 name, hash with
    | some email, some name, some hash =>
      if tenantId.all tenants.contains then
        match s.users.insert ⟨s.nextUserId, tenantId, email, name, role, false, true, hash⟩ with
        | some users => .ok { drawn with users := users }
        | none => .error .schema
      else .error .schema
    | _, _, _ => .error .schema)

/-- A query for one row. -/
def readUser (io : Script) (s : Accounts) (p : UserRow → Bool) : Except Err UserRow :=
  io.call 0 (match s.users.find p with
    | some r => .ok r
    | none => .error .noRows)

def userByEmail (io : Script) (unicode : Unicode) (s : Accounts) (email : Str) :
    Except Err UserRow := readUser io s fun r => r.email = unicode.toLower email

def userByID (io : Script) (s : Accounts) (id : ℤ) : Except Err UserRow :=
  readUser io s fun r => r.id = id

def setActive (active : Bool) (r : UserRow) : UserRow := { r with active := active }

theorem keeps_setActive (active : Bool) : Table.Keeps userClash (setActive active) :=
  fun _ _ => ⟨Iff.rfl, Iff.rfl⟩

def setAccess (enabled : Bool) (r : UserRow) : UserRow := { r with deletionAccess := enabled }

theorem keeps_setAccess (enabled : Bool) : Table.Keeps userClash (setAccess enabled) :=
  fun _ _ => ⟨Iff.rfl, Iff.rfl⟩

def revoke (now : Time) (r : KeyRow) : KeyRow := { r with revokedAt := some now }

theorem keeps_revoke (now : Time) : Table.Keeps keyClash (revoke now) :=
  fun _ _ => ⟨Iff.rfl, Iff.rfl⟩

def nowOf (io : Script) : Time := (timestamptz (io.now 0)).getD (io.now 0)

/-- `SetUserActive` up to its commit. A user who is deactivated loses all keys. -/
def setUserActiveWrite (io : Script) (s : Accounts) (id : ℤ) (active : Bool) :
    Option Err × Accounts :=
  inTx io s
    (match io.call 0 (if s.users.affected (·.id = id) = 0 then .error .noRows else
        .ok { s with
          users := s.users.update (·.id = id) (setActive active) (keeps_setActive active) }) with
    | .error e => .error e
    | .ok tx =>
      if active then .ok tx
      else io.call 1 (.ok { tx with
        keys := tx.keys.update (fun k => k.userId = id && k.revokedAt.isNone) (revoke (nowOf io))
          (keeps_revoke (nowOf io)) }))

/-- `SetDeletionAccess` up to its commit. Zero affected rows is found out after it. -/
def setDeletionAccessWrite (io : Script) (s : Accounts) (id : ℤ) (enabled : Bool) :
    Option Err × Accounts :=
  match statement io s (.ok { s with
      users := s.users.update (·.id = id) (setAccess enabled) (keeps_setAccess enabled) }) with
  | (some e, s) => (some e, s)
  | (none, after) => (if s.users.affected (·.id = id) = 0 then some .noRows else none, after)

/-- The scope of a key as it is stored. -/
def keyScope (scope : Str) : Str := if scope = lit "user" then lit "user" else lit "account"

/-- `CreateAPIKey`, with the id it returns. -/
def createAPIKey (io : Script) (s : Accounts) (userId : ℤ) (name hash keyPrefix scope : Str) :
    (Option Err × ℤ) × Accounts :=
  let drawn := { s with nextKeyId := s.nextKeyId + 1 }
  let result := statement io drawn
    (match varchar 120 name, bpchar 64 hash, varchar 24 keyPrefix with
    | some name, some hash, some keyPrefix =>
      if (s.users.find (·.id = userId)).isSome then
        match s.keys.insert ⟨s.nextKeyId, userId, name, hash, keyPrefix, keyScope scope, none⟩ with
        | some keys => .ok { drawn with keys := keys }
        | none => .error .schema
      else .error .schema
    | _, _, _ => .error .schema)
  ((result.1, s.nextKeyId), result.2)

/-- The keys `RevokeAPIKey` names. -/
def ownKey (userId id : ℤ) (scope : Str) (k : KeyRow) : Bool :=
  k.id = id && (k.userId = userId && (scope ≠ lit "user" || k.scope = lit "user"))

def revokeAPIKey (io : Script) (s : Accounts) (userId id : ℤ) (scope : Str) :
    Option Err × Accounts :=
  match statement io s (.ok { s with
      keys := s.keys.update (ownKey userId id scope) (revoke (nowOf io))
        (keeps_revoke (nowOf io)) }) with
  | (some e, s) => (some e, s)
  | (none, after) => (if s.keys.affected (ownKey userId id scope) = 0 then some .noRows else none,
      after)

end AccountRows
