import ShortQ.AnalyticsWorker
import ShortQ.ClickRows
import ShortQ.MessageBroker
import ShortQ.RedirectHandler

/-! # From the redirect to the stored click

Requests that record clicks, the broker, and any number of worker processes over one database.
The broker may accept a publish whose sender sees an error, may lose answers, and may take a
delivery back at any time; a process that crashes takes no further step. -/
namespace ClickPipeline

open Models
open Transaction
open Schema
open ClickStore
open ClickLedger
open ClickRows
open ClickWire
open MessageBroker
open LabelledRuns
open AnalyticsWorker (Worker Disposal)

inductive Queue where
  | clicks | retry | dlq
  deriving DecidableEq, Repr

/-- The dead-letter routes of `declareTopology` and `declareWorkerTopology`. -/
def deadLetter : Queue → Option Queue
  | .clicks => some .dlq
  | .retry => some .clicks
  | .dlq => none

/-- A call of `Recorder.Record` for a link without a click limit. The event has its flag set;
`flight` is the message that `Publish` sent for it. -/
inductive Request where
  | idle
  | recording (event : ClickEvent) (flight : Option ℕ)
  | recorded (event : ClickEvent) (ok : Bool) (err : Option Err)

/-- A worker process with its channel: deliveries that `Run` has not taken yet, the tags of
those it has, and what the `Retry` call at hand sent. -/
structure Session where
  alive : Bool := true
  worker : AnalyticsWorker.System := AnalyticsWorker.start
  inbox : List (ℕ × Publishing) := []
  tags : List ℕ := []
  flight : Option ℕ := none

structure System where
  ledger : Ledger
  broker : Broker Queue Publishing
  issued : List ℕ
  requests : ℕ → Request
  sessions : ℕ → Session

/-- Every id that is stored counts as issued. -/
def start (db : Database) : System where
  ledger := ⟨db, []⟩
  broker := .empty
  issued := db.clicks.rows.filterMap ClickRow.eventId
  requests := fun _ => .idle
  sessions := fun _ => {}

/-- What a worker process does. -/
inductive Task where
  | receive
  | loop (e : AnalyticsWorker.Event)
  | recordClicks (io : Script)
  /-- `Retry` publishes its copy. -/
  | resend
  | retried (ok : Bool)
  /-- A callback returns; `sent` tells whether the answer left the process. -/
  | called (ok sent : Bool)
  | crash

inductive Event where
  /-- `Record` is called and publishes. -/
  | record (r : ℕ) (event : ClickEvent) (increment : Bool)
  /-- `Publish` has returned; `Record` goes on to its end. -/
  | returned (r : ℕ) (published : Option Bool) (io : Script)
  | accept (flight : ℕ)
  | deliver (k : ℕ) (i : ℕ)
  | expire (q : Queue) (i : ℕ)
  | requeue (tag : ℕ)
  | settle (j : ℕ)
  | work (k : ℕ) (task : Task)
  | edit (op : StoreOp)

def System.session (s : System) (k : ℕ) (c : Session) : System :=
  { s with sessions := Function.update s.sessions k c }

/-- A store call: the tables it leaves, and what it inserted of the given events. -/
def extend (l : Ledger) (db : Database) (events : List ClickEvent) : Ledger :=
  ⟨db, l.inserted ++ insertedEvents l.db db events⟩

/-- A message for a queue of the broker, if there is one. -/
def publish (s : System) (publisher : Bool) (event : ClickEvent) :
    Option ℕ × Broker Queue Publishing :=
  match if publisher then publishing event else none with
  | none => (none, s.broker)
  | some m => (some s.broker.flights.length, s.broker.send .clicks m)

/-- The outcomes of `Publish`: none without a publisher, and nil only for a message that the
broker has accepted. -/
def published (publisher : Bool) (s : System) (flight : Option ℕ) : Option Bool → Bool
  | none => !publisher
  | some false => publisher
  | some true => publisher && flight.any s.broker.accepted

def Disposal.answer : Disposal → Answer
  | .ack => .ack
  | .nack => .requeue
  | .reject => .reject

def work (w : Worker) (s : System) (k : ℕ) (c : Session) : Task → Option System
  | .receive =>
    match c.inbox with
    | [] => none
    | (tag, m) :: rest =>
      (AnalyticsWorker.next w c.worker (.receive (wrap m))).map fun v =>
        s.session k { c with worker := v, inbox := rest, tags := c.tags ++ [tag] }
  | .loop e =>
    if e.internal then
      (AnalyticsWorker.next w c.worker e).map fun v => s.session k { c with worker := v }
    else none
  | .recordClicks io =>
    match c.worker.control with
    | .recordClicks batch _ =>
      let events := batch.map AnalyticsWorker.Pending.event
      let result := recordClicks io s.ledger.db events
      let inserted := if result.1.2.isNone then some (result.1.1 : ℤ) else none
      (AnalyticsWorker.next w c.worker (.recorded inserted)).map fun v =>
        { s.session k { c with worker := v, flight := none } with
          ledger := extend s.ledger result.2 events }
    | _ => none
  | .resend =>
    match c.worker.control, c.flight with
    | .retrying p _ _, none =>
      (retryPublishing p.delivery p.attempt).map fun m =>
        { s.session k { c with flight := some s.broker.flights.length } with
          broker := s.broker.send .retry m }
    | _, _ => none
  | .retried ok =>
    if ok && !c.flight.any s.broker.accepted then none
    else
      (AnalyticsWorker.next w c.worker (.retried ok)).map fun v =>
        s.session k { c with worker := v, flight := none }
  | .called ok sent =>
    match c.worker.control.callee with
    | none => none
    | some (kind, i) =>
      c.tags[i]?.bind fun tag =>
        (AnalyticsWorker.next w c.worker (.called ok)).map fun v =>
          { s.session k { c with worker := v, flight := none } with
            broker := if sent then s.broker.answer (Disposal.answer kind) tag else s.broker }
  | .crash => some (s.session k { c with alive := false })

def next (publisher : Bool) (w : Worker) (s : System) : Event → Option System
  | .record r event increment =>
    match s.requests r, eventUuid event with
    | .idle, some u =>
      if s.issued.contains u || event.occurredAt.isZero then none
      else
        let event := { event with increment := increment }
        let (flight, broker) := publish s publisher event
        some { s with
          broker := broker
          issued := u :: s.issued
          requests := Function.update s.requests r (.recording event flight) }
    | _, _ => none
  | .returned r outcome io =>
    match s.requests r with
    | .recording event flight =>
      if published publisher s flight outcome then
        let result := RedirectHandler.record outcome io s.ledger.db event event.increment none
        some { s with
          ledger := extend s.ledger result.2 [event]
          requests := Function.update s.requests r (.recorded event result.1.1 result.1.2) }
      else none
    | _ => none
  | .accept n => (s.broker.accept n).map fun b => { s with broker := b }
  | .deliver k i =>
    (s.broker.deliver .clicks i).map fun (m, b) =>
      let c := s.sessions k
      { s.session k { c with inbox := c.inbox ++ [(s.broker.nextTag, m)] } with broker := b }
  | .expire q i => (s.broker.expire deadLetter q i).map fun b => { s with broker := b }
  | .requeue tag => (s.broker.requeue tag).map fun b => { s with broker := b }
  | .settle j => (s.broker.settle deadLetter j).map fun b => { s with broker := b }
  | .edit op =>
    if editing op then some { s with ledger := extend s.ledger (op.apply s.ledger.db) [] }
    else none
  | .work k task => if (s.sessions k).alive then work w s k (s.sessions k) task else none

end ClickPipeline
