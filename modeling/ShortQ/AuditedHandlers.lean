import ShortQ.AuditLog
import ShortQ.LinkEdits

/-! # How a handler ends

A handler that writes answers at once or audits what it has done and then answers. -/
namespace AuditedHandlers

open AccountRows (Accounts UserRow)
open AuditLog
open GoText
open GoTime (Time)
open Hosts
open LinkCalls (Call)
open LinkEdits (Refusal)
open LinkPayload (SecretHash)
open Models
open Schema
open TenantDomains
open Transaction

structure World where
  db : Database
  domains : Domains
  accounts : Accounts
  audits : List AuditEvent

/-- `auth.NewAPIKey`: the digest of the key and the random part, in the alphabet of Base64. -/
structure NewKey where
  hash : Str
  random : Str
  length : 8 ≤ random.length
  alphabet : ∀ b ∈ random, GoUrl.isAlnum b = true ∨ b = 45 ∨ b = 95

def NewKey.start (k : NewKey) : Str := lit "sq_live_" ++ k.random.take 8

/-- What the calls of one request meet: the read before the write, the write, the read after it,
the lookup of the conflict path, the audit and the revocation after a failed one; then what is
drawn at random and what DNS answers. -/
structure Calls where
  before : Script
  io : Script
  after : Script
  lookup : Script
  audit : Script
  revoke : Script
  hash : ℕ → SecretHash
  random : Str
  randoms : ℕ → Str
  passwordHash : Option Str
  key : Except Str NewKey
  token : Str
  texts : List Str

/-! Responses. -/

structure Entry where
  link : Link
  shortUrl : Str
  deriving DecidableEq, Repr

/-- The Short.io form of a link; ids are written with `lnk_shortq_` in front, and the fields that
are the same for every link are left out. -/
structure ShortioLink where
  originalUrl : Str
  path : Str
  id : ℤ
  shortUrl : Str
  tags : List Str
  createdAt : Time
  skipQS : Bool
  ownerId : ℤ
  hasPassword : Bool
  duplicate : Bool
  domain : Str
  deriving DecidableEq, Repr

inductive Body where
  | empty
  | error (lead : Str) (reason : Refusal)
  | message (text : Str)
  | links (links : List Entry)
  | page (links : List Entry) (nextCursor : ℤ)
  | link (link : Entry)
  | imported (links : List Entry)
  | valid (rows : ℕ)
  | refusedRows (errorsByRow : List (ℕ × Str))
  | updated (links : List Entry)
  | deleted (count : ℕ)
  | shortioLink (link : ShortioLink)
  | shortioDeleted (id : ℤ)
  | shortioDeletedBulk (ids : List ℤ)
  | user (row : UserRow)
  | domain (row : DomainRow)
  | key (id : ℤ) (name start scope : Str)
  deriving DecidableEq, Repr

structure Response where
  status : ℕ
  body : Body
  deriving DecidableEq, Repr

def errOut (status : ℕ) (text : String) : Response := ⟨status, .error [] (.rejected (lit text))⟩

/-- The last steps of a handler; `undo` is what it does when the audit fails. -/
inductive Ending where
  | respond (r : Response)
  | record (e : AuditEvent) (ok : Response) (undo : World → World)

def conclude (calls : Calls) : Ending × World → Response × World
  | (.respond r, w) => (r, w)
  | (.record e ok undo, w) =>
    match recordAudit calls.audit w.accounts w.audits e with
    | (some _, log) => (errOut 500 "audit log unavailable", undo { w with audits := log })
    | (none, log) => (ok, { w with audits := log })

/-- `requireDelete`; the rest of the handler runs only where it passes. -/
def World.requireDelete (w : World) (c : Caller) (action targetType targetId : Str)
    (rest : Ending × World) : Ending × World :=
  if canDelete c then rest
  else (.record (c.event action targetType targetId .denied none none)
    (errOut 403 "deletion access required") id, w)

/-- Runs a store call of the user on the database of the world. -/
def World.run (w : World) (c : Caller) (calls : Calls) (call : Call) :
    Except Err (List Link) × World :=
  let result := call.run calls.io calls.after w.db c.user
  (result.1, { w with db := result.2 })

def formatInt (i : ℤ) : Str := lit (toString i)

end AuditedHandlers
