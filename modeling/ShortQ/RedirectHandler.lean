import ShortQ.ClickStore
import ShortQ.LinkStore
import ShortQ.RedirectCache
import Mathlib.Logic.Function.Basic

/-! # Redirect requests

`redirectSlug` from the point where the slug and the host are accepted. Each request moves by
one database or cache call at a time. -/
namespace RedirectHandler

open GoText (Str)
open GoTime (Time)
open Models
open Schema
open Transaction
open ClickStore
open LinkStore
open RedirectCache

def linkExpired (now : Time) (l : Link) : Bool :=
  l.expiresAt.any (fun e => !now.before e) || l.maxClicks.any (· ≤ l.clicks)

/-- `Recorder.Record`. `published` is the outcome of `Publish`, or none without a publisher; a
published event is in the hands of the broker. -/
def record (published : Option Bool) (io : Script) (db : Database) (event : ClickEvent)
    (increment : Bool) (maxClicks : Option ℤ) : (Bool × Option Err) × Database :=
  let event := { event with increment := increment }
  if published = none || maxClicks.isSome then recordClick io db event increment maxClicks
  else if published = some true then ((true, none), db)
  else recordClick io db event increment none

inductive Response where
  /-- 404, or the not-found page of the domain. -/
  | notFound
  | passwordGate
  | expired
  | trackingFailed
  | redirect (target : Str) (code : ℤ)
  deriving DecidableEq, Repr

/-- The answer once the click is recorded. An expired link records without incrementing and
ignores the outcome. -/
def respond (link : Link) (increment : Bool) (target : Str) (ok : Bool) (err : Option Err) :
    Response :=
  if !increment then .expired
  else if err.isSome then .trackingFailed
  else if !ok then .expired
  else .redirect target link.redirectCode

inductive Request where
  | idle
  | bypassing
  | resolving (step : Resolve)
  | recording (link : Link) (event : ClickEvent) (increment : Bool) (target : Str)
  | recorded (link : Link) (increment : Bool) (target : Str) (ok : Bool) (err : Option Err)
  | answered (response : Response)

/-- `issued` holds the event ids drawn so far. -/
structure System where
  db : Database
  cache : Option CachedRedirect
  issued : List ℕ
  requests : ℕ → Request

inductive Event where
  | start (r : ℕ) (cached : Bool)
  | get (r : ℕ) (ok : Bool)
  | load (r : ℕ) (io : Script)
  | set (r : ℕ) (call : CacheCall)
  | check (r : ℕ) (domainTenant : Option ℤ) (access : Bool) (now : Time) (event : ClickEvent)
      (target : Str)
  | record (r : ℕ) (published : Option Bool) (io : Script)
  | respond (r : ℕ)

def System.advance (s : System) (r : ℕ) (x : Request) : System :=
  { s with requests := Function.update s.requests r x }

/-- The id `newEventID` drew, if it is a new one. -/
def freshId (s : System) (event : ClickEvent) : Option ℕ :=
  match nullableUuid event.eventId with
  | some (some u) => if s.issued.contains u then none else some u
  | _ => none

/-- The checks between the load and the recording. What the request and its environment
contribute to the event and the target is left open. -/
def check (s : System) (r : ℕ) (link : Link) (domainTenant : Option ℤ) (access : Bool)
    (now : Time) (event : ClickEvent) (target : Str) : Option System :=
  if domainTenant.any fun d => link.tenantId ≠ some d then some (s.advance r (.answered .notFound))
  else if link.passwordProtected && !access then some (s.advance r (.answered .passwordGate))
  else
    match freshId s event with
    | none => none
    | some u =>
      if event.linkId = link.id && !event.occurredAt.isZero then
        some { s.advance r (.recording link event (!linkExpired now link) target) with
          issued := u :: s.issued }
      else none

def next (slug : Str) (s : System) : Event → Option System
  | .start r cached =>
    match s.requests r with
    | .idle => some (s.advance r (if cached then .resolving .get else .bypassing))
    | _ => none
  | .get r ok =>
    match s.requests r with
    | .resolving .get =>
      some (s.advance r (.resolving (Resolve.afterGet (if ok then some s.cache else none))))
    | _ => none
  | .load r io =>
    match s.requests r with
    | .bypassing => some (s.advance r (.resolving (.done (linkBySlug io s.db slug))))
    | .resolving .load =>
      some (s.advance r (.resolving (Resolve.afterLoad (linkBySlug io s.db slug))))
    | _ => none
  | .set r call =>
    match s.requests r with
    | .resolving (.set link cached) =>
      if call.possible then
        some { s.advance r (.resolving (.done (.ok link))) with
          cache := if call.applied then some cached else s.cache }
      else none
    | _ => none
  | .check r domainTenant access now event target =>
    match s.requests r with
    | .resolving (.done (.error _)) => some (s.advance r (.answered .notFound))
    | .resolving (.done (.ok link)) => check s r link domainTenant access now event target
    | _ => none
  | .record r published io =>
    match s.requests r with
    | .recording link event increment target =>
      let result := record published io s.db event increment link.maxClicks
      some { s.advance r (.recorded link increment target result.1.1 result.1.2) with
        db := result.2 }
    | _ => none
  | .respond r =>
    match s.requests r with
    | .recorded link increment target ok err =>
      some (s.advance r (.answered (respond link increment target ok err)))
    | _ => none

end RedirectHandler
