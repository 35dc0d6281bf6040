import ServiceHost.Callback
/-!
Controllers: each drives one service through its lifecycle. A controller takes the messages of its
inbox in order, one at a time; while a callback is suspended it takes none.
-/

namespace ServiceHost

/-- The controller of one registration of a service. It holds the promise made to the installer
while that is open, the callback that is suspended, and the task a callback was deferred to last, if
nobody called it off. -/
structure Controller where
  plan : Plan
  state : State
  install : Option Ticket
  interruptible : Bool
  resolved : List Name
  inbox : List Message
  callback : Option Callback
  pending : Option Nat
  ended : Bool

namespace Controller

def launch (plan : Plan) (ticket : Ticket) : Controller :=
  { plan, state := .waiting, install := some ticket, interruptible := false, resolved := []
    inbox := [], callback := none, pending := none, ended := false }

def name (c : Controller) : Name := c.plan.name

end Controller

/-- What a controller does in one turn: the task it calls off, what its callback asks the container
for, the work it leaves to a new task, and the report of the state it reached. -/
structure Turn where
  world : World
  controller : Controller
  calledOff : Option Nat
  requests : List Request
  deferred : Option (Phase × Completion)
  reported : Option Request

namespace Turn

def begin (world : World) (controller : Controller) : Turn :=
  { world, controller, calledOff := none, requests := [], deferred := none, reported := none }

/-- The controller sends itself an event. -/
def emit (t : Turn) (event : Event) : Turn :=
  { t with controller :=
      { t.controller with inbox := t.controller.inbox ++ [.lifecycle event] } }

def answerInstall (t : Turn) (outcome : Except Error Answer) : Turn :=
  match t.controller.install with
  | none => t
  | some ticket =>
    { t with
      world := t.world.settle ticket outcome
      controller := { t.controller with install := none } }

def startAnswer (plan : Plan) : Answer :=
  match plan.conduct with
  | .composite _ => .done
  | _ => .value plan.value

def completeStart (t : Turn) : Turn :=
  let t := match t.controller.plan.conduct with
    | .scripted .. => { t with world := t.world.record t.controller.name .get }
    | _ => t
  t.answerInstall (.ok (startAnswer t.controller.plan))

def failStart (t : Turn) (why : StartAbort) (event : Event) : Turn :=
  let name := t.controller.name
  match why, event with
  | .failed, .startFailed source =>
    { t with world := t.world.log .error s!"Service {name} failed to start: {source.text}" }
      |>.answerInstall (.error (.startFailure name source))
  | .removedWhileStarting, _ => t.answerInstall (.error (.removedWhileStarting name))
  | _, _ => t.answerInstall (.error (.interrupted name))

/-- Empties the slots that were filled and the rosters. -/
def releaseInjected (t : Turn) : Turn :=
  let c := t.controller
  let cells := (c.resolved.flatMap c.plan.slotsOf).foldl Cells.clearSlot t.world.cells
  let cells := c.plan.rosters.values.foldl Cells.clearRoster cells
  { t with world := { t.world with cells }, controller := { c with resolved := [] } }

def report (t : Turn) (value : Option Value) : Turn :=
  { t with reported := some (.report t.controller.name t.controller.state value) }

def conclude (t : Turn) (phase : Phase) (deferred : Option Completion) (interruptible : Bool)
    (outcome : Except Failure Unit) : Turn :=
  match phase, outcome, deferred with
  | .start, .ok (), none => t.emit .started
  | .start, .ok (), some work =>
    { t with
      controller := { t.controller with interruptible }
      deferred := some (.start, work) }
  | .start, .error failure, _ => t.emit (.startFailed failure)
  | .stop, .ok (), none => t.emit .stopped
  | .stop, .ok (), some work => { t with deferred := some (.stop, work) }
  | .stop, .error failure, _ =>
    { t with world := t.world.logStopFailure t.controller.name failure }.emit .stopped

/-- Takes in how far a callback came: it is suspended, or it returned. -/
def settleCallback (t : Turn) (context : Context) (result : Progress × Halt) : Turn :=
  let (p, halt) := result
  let t := { t with world := p.world, requests := t.requests ++ p.requests }
  match halt with
  | .waiting wait rest =>
    { t with controller := { t.controller with
        callback := some
          { phase := context.phase, interrupted := context.interrupted, rest
            deferred := p.deferred, interruptible := p.interruptible, wait } } }
  | .returned outcome =>
    { t with controller := { t.controller with callback := none } }
      |>.conclude context.phase p.deferred p.interruptible outcome

def call (t : Turn) (id : Nat) (phase : Phase) (interrupted : Bool) (note : Note)
    (actions : List Action) : Turn :=
  let context : Context := { service := t.controller.name, id, phase, interrupted }
  t.settleCallback context (perform context actions
    (.begin (t.world.record t.controller.name note)))

def callStart (t : Turn) (id : Nat) : Turn :=
  match t.controller.plan.conduct with
  | .plain | .composite _ => t.conclude .start none false (.ok ())
  | .scripted immediate start _ dependencies slots =>
    let note := Note.start
      (dependencies.eraseDups.map fun d => (d, t.world.journal.standing d))
      (slots.eraseDups.map fun l => (l, t.world.cells.value? l))
    if immediate then
      { t with world := t.world.record t.controller.name note }.conclude .start none false (.ok ())
    else t.call id .start false note start

/-- Runs `stop`. A composite asks for the removal of its children and does not wait for it. -/
def callStop (t : Turn) (id : Nat) (interrupted : Bool) : Turn :=
  match t.controller.plan.conduct with
  | .plain => t.conclude .stop none false (.ok ())
  | .composite children =>
    let p := children.foldl (fun p child => (p.ask none (.remove child)).2)
      (Progress.begin t.world)
    { t with world := p.world, requests := t.requests ++ p.requests }
      |>.conclude .stop none false (.ok ())
  | .scripted _ _ stop _ _ =>
    t.call id .stop interrupted
      (.stop interrupted (t.world.journal.dependents t.controller.name)) stop

/-- Fills the slots bound to each dependency in turn, up to the first that refuses its value. -/
def inject (plan : Plan) : Cells → List (Name × Value) → Cells × Except Error Unit
  | cells, [] => (cells, .ok ())
  | cells, (dependency, value) :: rest =>
    match cells.inject dependency value (plan.slotsOf dependency) with
    | (cells, .ok ()) => inject plan cells rest
    | (cells, .error expected) =>
      (cells, .error (.typeMismatch plan.name dependency expected.text))

def injectAndStart (t : Turn) (id : Nat) (values : List (Name × Value)) : Turn :=
  let (cells, outcome) := inject t.controller.plan t.world.cells values
  let t := { t with
    world := { t.world with cells }
    controller := { t.controller with resolved := values.map Prod.fst } }
  match outcome with
  | .ok () => t.callStart id
  | .error e => t.emit (.startFailed e.toFailure)

/-- Calls off the work a callback was deferred to, and runs `stop`. -/
def invokeStop (t : Turn) (id : Nat) (interrupted : Bool) : Turn :=
  { t with calledOff := t.controller.pending, controller := { t.controller with pending := none } }
    |>.callStop id interrupted

def carryOut (id : Nat) (event : Event) (t : Turn) : Effect → Turn
  | .injectAndStart =>
    match event with
    | .dependenciesAvailable values => t.injectAndStart id values
    | _ => t
  | .completeStart => t.completeStart
  | .failStart why => t.failStart why event
  | .invokeStop interrupted => t.invokeStop id interrupted
  | .emitStopped => t.emit .stopped
  | .emitRemoved => t.emit .removed
  | .releaseInjected => t.releaseInjected
  | .terminate => { t with controller := { t.controller with ended := true } }

/-- Takes in a signal of the lifecycle. The move is reported once its effects are carried out,
which is later if a callback is suspended. -/
def onEvent (t : Turn) (id : Nat) (event : Event) : Turn :=
  let c := t.controller
  match transition c.state event.signal c.interruptible with
  | none => t
  | some (next, effects) =>
    let t := effects.foldl (carryOut id event) { t with controller := { c with state := next } }
    if next.phase = c.state.phase || t.controller.callback.isSome then t
    else t.report (if .completeStart ∈ effects then some c.plan.value else none)

def onUpdate (t : Turn) : GroupUpdate → Turn
  | .added group member value =>
    match t.controller.plan.rosters[group]? with
    | none => t
    | some label => { t with world := t.world.addMember label group member value }
  | .removed group member =>
    match t.controller.plan.rosters[group]? with
    | none => t
    | some label => { t with world := t.world.removeMember label member }

end Turn

namespace Controller

def canTake (c : Controller) : Bool := !c.ended && c.callback.isNone && !c.inbox.isEmpty

def take (c : Controller) (id : Nat) (world : World) : Turn :=
  match c.inbox with
  | [] => .begin world c
  | message :: rest =>
    let t := Turn.begin world { c with inbox := rest }
    match message with
    | .lifecycle event => t.onEvent id event
    | .reference update => t.onUpdate update

def wakeUp? (c : Controller) (world : World) :
    Option (Callback × Option (Awaited × Except Error Answer)) :=
  match c.callback with
  | none => none
  | some callback =>
    match callback.wait with
    | .timer => none
    | .elapsed => some (callback, none)
    | .answer ticket awaited =>
      (world.outcome? ticket).map fun outcome => (callback, some (awaited, outcome))

def canResume (c : Controller) (world : World) : Bool := (c.wakeUp? world).isSome

/-- Goes on with a suspended callback. Once it returned, the state it led to is reported. -/
def resume (c : Controller) (id : Nat) (world : World) : Turn :=
  match c.wakeUp? world with
  | none => .begin world c
  | some (callback, answer) =>
    let context : Context :=
      { service := c.name, id, phase := callback.phase, interrupted := callback.interrupted }
    let t := (Turn.begin world c).settleCallback context (carryOn context callback.rest
      { Progress.begin world with
        deferred := callback.deferred, interruptible := callback.interruptible } answer)
    if t.controller.callback.isSome then t else t.report none

def alarm (c : Controller) : Controller :=
  { c with callback := c.callback.map fun callback =>
      if callback.wait = .timer then { callback with wait := .elapsed } else callback }

def cancelText (c : Controller) : String :=
  s!"⚠️  Service {c.name} was cancelled in state {c.state.text}"

end Controller

end ServiceHost
