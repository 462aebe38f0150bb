import ShortQ.ClickWire
import ShortQ.ConfirmLine
import ShortQ.LabelledRuns
import Mathlib.Logic.Function.Basic
import Mathlib.Tactic.Common

/-! # The click publisher

`RabbitMQPublisher` under any number of goroutines. A step is one operation of one call, or one
event of a broker channel; only the holder of the lock touches the connection. -/
namespace ClickPublisher

open GoText (lit)
open Models
open ConfirmLine
open ClickWire
open LabelledRuns

def MaxConnectAttempts : ℕ := 2

inductive PublishError where
  | marshal
  /-- The context ended while the call waited for the lock. -/
  | wait
  | connect
  | publish
  | confirmClosed
  | nack
  | confirmTimeout
  deriving DecidableEq, Repr

/-- Where the goroutine of one call stands. The holder of the lock is at `trying` to
`confirming`, or at `closing`. -/
inductive Call where
  | idle
  | waiting (message : Publishing)
  | trying (attempt : ℕ) (message : Publishing)
  | ready (attempt : ℕ) (message : Publishing)
  | confirming (message : Publishing) (channel position : ℕ)
  | returned (err : Option PublishError)
  | waitingClose
  | closing
  | closed

/-- One call of `PublishWithContext` that reached the broker, or that reported a failure. -/
structure Sent where
  call : ℕ
  message : Publishing
  channel : ℕ
  position : ℕ
  ok : Bool

/-- `lines` and `down` are indexed by channel, in the order they were opened. -/
structure System where
  lock : Option ℕ
  conn : Option ℕ
  channel : Option ℕ
  confirms : Option ℕ
  opened : ℕ
  lines : ℕ → Line
  down : ℕ → Bool
  /-- The calls whose context has ended. -/
  expired : ℕ → Bool
  calls : ℕ → Call
  asked : ℕ → Option ClickEvent
  log : List Sent

def start : System :=
  ⟨none, none, none, none, 0, fun _ => .fresh, fun _ => false, fun _ => false, fun _ => .idle,
    fun _ => none, []⟩

/-- The outcome of `ensureChannel` when there is no channel yet. -/
inductive Connect where
  | dialFailed | openFailed | topologyFailed | confirmFailed | connected
  deriving DecidableEq, Repr

inductive Event where
  | publish (r : ℕ) (event : ClickEvent)
  | close (r : ℕ)
  | expire (r : ℕ)
  | acquire (r : ℕ)
  /-- The context ended before the lock was free. -/
  | giveUp (r : ℕ)
  | ensure (r : ℕ) (connect : Connect)
  /-- `PublishWithContext`; one that fails may have sent the message. -/
  | send (r : ℕ) (ok sent : Bool)
  | receive (r : ℕ)
  | receiveClosed (r : ℕ)
  | timeout (r : ℕ)
  | disconnect (r : ℕ)
  /-- The broker confirms the oldest publish on the channel it has not confirmed. -/
  | confirm (channel : ℕ) (ack : Bool)
  | drop (channel : ℕ)

def System.set (s : System) (r : ℕ) (c : Call) : System :=
  { s with calls := Function.update s.calls r c }

/-- Closes what is open and forgets it. -/
def System.reset (s : System) : System :=
  { s with
    conn := none
    channel := none
    confirms := none
    down := match s.channel with
      | some c => Function.update s.down c true
      | none => s.down }

/-- The call returns and its deferred receive frees the lock. -/
def System.finish (s : System) (r : ℕ) (c : Call) : System := { s.set r c with lock := none }

/-- After a failed attempt. -/
def System.again (s : System) (r attempt : ℕ) (message : Publishing) (err : PublishError) :
    System :=
  if s.expired r || attempt = MaxConnectAttempts then s.finish r (.returned (some err))
  else s.set r (.trying (attempt + 1) message)

def ensureChannel (s : System) (connect : Connect) : Option System :=
  match s.channel with
  | some _ => some s
  | none =>
    match connect with
    | .dialFailed | .openFailed => none
    | .topologyFailed | .confirmFailed => none
    | .connected =>
      some { s with
        conn := some s.opened, channel := some s.opened, confirms := some s.opened
        opened := s.opened + 1 }

/-- `PublishWithContext` on the open channel. -/
def sendOn (s : System) (r attempt : ℕ) (message : Publishing) (ok sent : Bool) :
    Option System :=
  match s.channel with
  | none => none
  | some c =>
    let position := (s.lines c).published
    let published := { s with
      log := s.log ++ [Sent.mk r message c position ok]
      lines := if ok || sent then Function.update s.lines c (s.lines c).publish else s.lines }
    if ok then
      if s.down c then none else some (published.set r (.confirming message c position))
    else some (published.reset.again r attempt message .publish)

def next (s : System) : Event → Option System
  | .publish r event =>
    match s.calls r with
    | .idle =>
      let s := { s with asked := Function.update s.asked r (some event) }
      match publishing event with
      | none => some (s.set r (.returned (some .marshal)))
      | some message => some (s.set r (.waiting message))
    | _ => none
  | .close r =>
    match s.calls r with
    | .idle => some (s.set r .waitingClose)
    | _ => none
  | .expire r => some { s with expired := Function.update s.expired r true }
  | .acquire r =>
    match s.lock, s.calls r with
    | none, .waiting message => some { s.set r (.trying 1 message) with lock := some r }
    | none, .waitingClose => some { s.set r .closing with lock := some r }
    | _, _ => none
  | .giveUp r =>
    match s.calls r with
    | .waiting _ => if s.expired r then some (s.set r (.returned (some .wait))) else none
    | _ => none
  | .ensure r connect =>
    match s.calls r with
    | .trying attempt message =>
      match ensureChannel s connect with
      | some s => some (s.set r (.ready attempt message))
      | none => some (s.reset.again r attempt message .connect)
    | _ => none
  | .send r ok sent =>
    match s.calls r with
    | .ready attempt message => sendOn s r attempt message ok sent
    | _ => none
  | .receive r =>
    match s.calls r, s.confirms with
    | .confirming _ _ _, some c =>
      match (s.lines c).take with
      | none => none
      | some (ack, line) =>
        let s := { s with lines := Function.update s.lines c line }
        if ack then some (s.finish r (.returned none))
        else some (s.reset.finish r (.returned (some .nack)))
    | _, _ => none
  | .receiveClosed r =>
    match s.calls r, s.confirms with
    | .confirming _ _ _, some c =>
      if s.down c then some (s.reset.finish r (.returned (some .confirmClosed))) else none
    | _, _ => none
  | .timeout r =>
    match s.calls r with
    | .confirming _ _ _ =>
      if s.expired r then some (s.reset.finish r (.returned (some .confirmTimeout))) else none
    | _ => none
  | .disconnect r =>
    match s.calls r with
    | .closing => some (s.reset.finish r .closed)
    | _ => none
  | .confirm c ack =>
    if s.down c then none
    else ((s.lines c).answer ack).map fun line =>
      { s with lines := Function.update s.lines c line }
  | .drop c => some { s with down := Function.update s.down c true }

end ClickPublisher
