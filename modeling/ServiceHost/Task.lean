import ServiceHost.World
/-! Tasks: the work callbacks leave to be done, and the watcher which tells the controller how a
task ended, or calls the task off. -/

namespace ServiceHost

/-- How long a start or stop may take before a warning is logged, in milliseconds. The work is not
called off: the controller keeps waiting for it. -/
def gracePeriod : Nat := 10000

/-- How far the work of a task has come: once it has begun it sleeps until its delay has passed. -/
inductive TaskState
  | queued
  | asleep
  | awake
  | ended (outcome : Except Failure Unit)
  | calledOff

/-- Work in progress, together with its watcher: whether it still waits, whether it has to warn that
the grace period is over, and whether the controller no longer wants the outcome. -/
structure Task where
  owner : Nat
  service : Name
  phase : Phase
  work : Completion
  state : TaskState
  watched : Bool
  overdue : Bool
  unwanted : Bool

namespace Task

def launch (owner : Nat) (service : Name) (phase : Phase) (work : Completion) : Task :=
  { owner, service, phase, work, state := .queued, watched := true, overdue := false
    unwanted := false }

def outcome? (t : Task) : Option (Except Failure Unit) :=
  match t.state with
  | .ended outcome => some outcome
  | _ => none

/-- Whether nothing is left to do, for the work or for the watcher. -/
def isOver (t : Task) : Bool :=
  !t.watched && match t.state with
    | .ended _ | .calledOff => true
    | _ => false

/-- What the controller learns when deferred work panics. -/
def panicFailure (phase : Phase) (panic : Panic) : Failure :=
  let cause := match panic with
    | .message text => "task N panicked with message " ++ Text.quote text
    | .unreadable => "task N panicked"
  .ofMessage s!"Asynchronous {phase.text} did not run to completion: {cause}"

def complete (t : Task) (world : World) : Task × World :=
  match t.work.ending with
  | .done => ({ t with state := .ended (.ok ()) }, world.record t.service (.done t.phase))
  | .fail failure =>
    ({ t with state := .ended (.error failure) }, world.record t.service (.fail t.phase))
  | .panic panic =>
    ({ t with state := .ended (.error (panicFailure t.phase panic)) },
      world.record t.service (.panic t.phase))

def canRun (t : Task) : Bool :=
  match t.state with
  | .queued | .awake => true
  | _ => false

def run (t : Task) (id : Nat) (world : World) : Task × World :=
  match t.state with
  | .queued =>
    if t.work.delay = 0 then
      -- blocking work only begins here, even if it takes no time
      if t.work.blocking then ({ t with state := .awake }, world) else t.complete world
    else ({ t with state := .asleep }, world.setTimer t.work.delay (.task id))
  | .awake => t.complete world
  | _ => (t, world)

def alarm (t : Task) : Task :=
  { t with state := match t.state with
      | .asleep => .awake
      | other => other }

def graceOver (t : Task) : Task := { t with overdue := true }

def event (t : Task) (outcome : Except Failure Unit) : Event :=
  match t.phase, outcome with
  | .start, .ok () => .started
  | .start, .error failure => .startFailed failure
  | .stop, _ => .stopped

def logOutcome (t : Task) (outcome : Except Failure Unit) (world : World) : World :=
  match t.phase, outcome with
  | .stop, .error failure => world.logStopFailure t.service failure
  | _, _ => world

/-- Whether blocking work is under way: it goes on to its end, whoever calls it off. -/
def isBusy (t : Task) : Bool :=
  t.work.blocking && match t.state with
    | .asleep | .awake => true
    | _ => false

/-- The watcher calls the work off and leaves, unless it has ended already. Blocking work goes on
once it has begun. -/
def callOff (t : Task) : Task :=
  { t with
    watched := false
    state := match t.state with
      | .ended outcome => .ended outcome
      | state => if t.isBusy then state else .calledOff }

def overdueText (t : Task) : String :=
  s!"⚠️  Service {t.service} has not completed its {t.phase.text} after "
    ++ (Duration.ofMillis gracePeriod).text

end Task

end ServiceHost
