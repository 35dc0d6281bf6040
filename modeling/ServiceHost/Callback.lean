import ServiceHost.World
/-! Callbacks: how the actions of a script are carried out, up to an action that has to wait or to
the end. -/

namespace ServiceHost

/-- What the container can be asked for, and the reports of its controllers. -/
inductive Request
  | install (plan : Plan) (ticket : Ticket)
  | remove (name : Name) (ticket : Ticket)
  | has (name : Name) (ticket : Ticket)
  | state (name : Name) (ticket : Ticket)
  | text (ticket : Ticket)
  | close (ticket : Ticket)
  | report (name : Name) (state : State) (value : Option Value)

def Request.operation : Request → String
  | .install .. => "install service"
  | .remove .. => "remove service"
  | .has .. | .state .. => "query service"
  | .text _ => "dump service graph"
  | .close _ => "close service container"
  | .report .. => "report"

/-- The promise made to whoever sent a request; reports expect no answer. -/
def Request.ticket? : Request → Option Ticket
  | .install _ t | .remove _ t | .has _ t | .state _ t | .text t | .close t => some t
  | .report .. => none

inductive Awaited
  | removal (name : Name)
  | presence (name : Name)
  deriving DecidableEq, Repr, Inhabited

/-- What a suspended callback waits for: a timer, nothing any more once that went off, or an
answer. -/
inductive Wait
  | timer
  | elapsed
  | answer (ticket : Ticket) (awaited : Awaited)
  deriving DecidableEq, Repr, Inhabited

/-- Who runs a callback, and which. A `stop` can be told that it cuts a start short. -/
structure Context where
  service : Name
  id : Nat
  phase : Phase
  interrupted : Bool
  deriving DecidableEq, Repr, Inhabited

/-- How far a callback has come: what it asked the container for, in order, and the work its
completion was deferred to. -/
structure Progress where
  world : World
  requests : List Request
  deferred : Option Completion
  interruptible : Bool

inductive Halt
  | waiting (wait : Wait) (rest : List Action)
  | returned (outcome : Except Failure Unit)

structure Callback where
  phase : Phase
  interrupted : Bool
  rest : List Action
  deferred : Option Completion
  interruptible : Bool
  wait : Wait

def Panic.toFailure (phase : Phase) : Panic → Failure
  | .message text => .ofMessage s!"{phase.text} panicked: {text}"
  | .unreadable => .ofMessage s!"{phase.text} panicked: unknown cause"

namespace Progress

def begin (world : World) : Progress :=
  { world, requests := [], deferred := none, interruptible := false }

def record (p : Progress) (c : Context) (note : Note) : Progress :=
  { p with world := p.world.record c.service note }

def ask (p : Progress) (subject : Option Subject) (request : Ticket → Request) :
    Ticket × Progress :=
  let (ticket, world) := p.world.pledge subject
  (ticket, { p with world, requests := p.requests ++ [request ticket] })

def subject (c : Context) (action : String) (name : Name) : Subject :=
  ⟨.callback c.phase c.service, action, name⟩

def install (p : Progress) (origin : Origin) (scope : Option Name) (d : Service) : Progress :=
  let p := { p with world := { p.world with cells := p.world.cells.createFor d } }
  let about := if d.forget then none else some ⟨origin, "install", d.name⟩
  (p.ask about (.install (d.plan scope))).2

/-- Installs a composite alone, whether its children are installed or not. -/
def installAlone (p : Progress) (origin : Origin) (scope : Option Name) (c : Composite) :
    Progress :=
  (p.ask (some ⟨origin, "composite", c.name⟩) (.install (c.plan scope))).2

/-- Installs the children of a composite, then the composite. -/
def installComposite (p : Progress) (origin : Origin) (scope : Option Name) (c : Composite) :
    Progress :=
  (c.services.foldl (fun p d => p.install origin none d) p).installAlone origin scope c

/-- Defers completion to some work. Only the first deferral is accepted. -/
def defer (p : Progress) (work : Completion) (interruptible : Bool) : Except Error Progress :=
  if p.deferred.isSome then .error .alreadyDeferred
  else .ok { p with deferred := some work, interruptible }

def finish (p : Progress) (c : Context) : Progress :=
  if p.deferred.isSome then p else p.record c (.done c.phase)

end Progress

/-- Defers completion to some work and goes on. If that is refused, the callback fails, unless it is
`catching`. -/
def deferThen (goOn : Progress → Progress × Halt) (c : Context) (work : Completion)
    (interruptible catching : Bool) (p : Progress) : Progress × Halt :=
  match p.defer work interruptible with
  | .ok p => goOn p
  | .error e =>
    if catching then goOn (p.record c (.refused e))
    else (p.record c (.fail c.phase), .returned (.error e.toFailure))

/-- Carries out actions up to the first that has to wait, or to the end. What concerns installs
and queries has no meaning in a `stop`. -/
def perform (c : Context) : List Action → Progress → Progress × Halt
  | [], p => (p.finish c, .returned (.ok ()))
  | action :: rest, p =>
    match action with
    | .sleep 0 => perform c rest p
    | .sleep millis =>
      ({ p with world := p.world.setTimer millis (.controller c.id) }, .waiting .timer rest)
    | .note text => perform c rest (p.record c (.text text))
    | .context =>
      perform c rest (p.record c (.context c.service
        (match c.phase with
          | .start => none
          | .stop => some c.interrupted)))
    | .read label => perform c rest (p.record c (.read label p.world.cells[label]?))
    | .fail failure => (p.record c (.fail c.phase), .returned (.error failure))
    | .panic panic => (p.record c (.panic c.phase), .returned (.error (panic.toFailure c.phase)))
    | .runAsync work interruptible catching =>
      deferThen (perform c rest) c ⟨work, false⟩ interruptible catching p
    | .run work catching => deferThen (perform c rest) c ⟨work, true⟩ false catching p
    | .remove name false =>
      perform c rest (p.ask (some (Progress.subject c "remove" name)) (.remove name)).2
    | .remove name true =>
      let (ticket, p) := p.ask none (.remove name)
      (p, .waiting (.answer ticket (.removal name)) rest)
    | .has name =>
      match c.phase with
      | .stop => perform c rest p
      | .start =>
        let (ticket, p) := p.ask none (.has name)
        (p, .waiting (.answer ticket (.presence name)) rest)
    | .install service =>
      match c.phase with
      | .stop => perform c rest p
      | .start => perform c rest (p.install (.callback .start c.service) (some c.service) service)
    | .composite unit =>
      match c.phase with
      | .stop => perform c rest p
      | .start =>
        perform c rest (p.installComposite (.callback .start c.service) (some c.service) unit)
    | .compositeAlone unit =>
      match c.phase with
      | .stop => perform c rest p
      | .start => perform c rest (p.installAlone (.callback .start c.service) (some c.service) unit)

def removalText : Except Error Answer → String
  | .ok _ => "Ok(())"
  | .error e => "Err(" ++ e.fields?.getD e.message ++ ")"

/-- Carries on after a wait is over: a callback that waited for an answer first records it. -/
def carryOn (c : Context) (rest : List Action) (p : Progress) :
    Option (Awaited × Except Error Answer) → Progress × Halt
  | none => perform c rest p
  | some (.removal name, outcome) =>
    perform c rest (p.record c (.removal name (removalText outcome)))
  | some (.presence name, .ok (.flag present)) =>
    perform c rest (p.record c (.presence name present))
  | some (.presence _, .ok _) => perform c rest p
  | some (.presence _, .error e) => (p, .returned (.error e.toFailure))

end ServiceHost
