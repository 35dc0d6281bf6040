import ServiceHost.Basic
/-!
The lifecycle of a service as data: the states passed in one direction, the signals that move a
service along, the effects each move asks for, and the messages by which signals reach a controller.
-/

namespace ServiceHost

/-- Where a service stands. It never goes back: to start again it has to be installed anew. A start
under way remembers whether the service was asked to stop in the meantime; a draining service was
asked to stop and has dependents left. -/
inductive State
  | waiting
  | starting (stopRequested : Bool)
  | started
  | draining
  | stopping
  | removed
  deriving DecidableEq, Repr, Inhabited

def State.phase : State → Nat
  | .waiting => 0
  | .starting _ => 1
  | .started => 2
  | .draining => 3
  | .stopping => 4
  | .removed => 5

def State.text : State → String
  | .waiting => "AwaitDependenciesStarted"
  | .starting false => "AwaitStart \x7b stop_after_started: false \x7d"
  | .starting true => "AwaitStart \x7b stop_after_started: true \x7d"
  | .started => "Started"
  | .draining => "AwaitDependentsStopped"
  | .stopping => "AwaitStop"
  | .removed => "Removed"

def State.label : State → String
  | .starting false => "AwaitStart"
  | .starting true => "AwaitStart+stop"
  | state => state.text

inductive Signal
  | dependenciesAvailable
  | dependenciesUnavailable
  | dependentsStopped
  | stopping
  | started
  | startFailed
  | stopped
  | removed
  deriving DecidableEq, Repr, Inhabited

def Signal.text : Signal → String
  | .dependenciesAvailable => "DependenciesAvailable"
  | .dependenciesUnavailable => "DependenciesUnavailable"
  | .dependentsStopped => "DependentsStopped"
  | .stopping => "Stopping"
  | .started => "Started"
  | .startFailed => "StartFailed"
  | .stopped => "Stopped"
  | .removed => "Removed"

inductive StartAbort
  | interrupted
  | removedWhileStarting
  | failed
  deriving DecidableEq, Repr, Inhabited

inductive Effect
  | injectAndStart
  | completeStart
  | failStart (why : StartAbort)
  | invokeStop (interrupted : Bool)
  | emitStopped
  | emitRemoved
  | releaseInjected
  | terminate
  deriving DecidableEq, Repr, Inhabited

/-- The state a signal leads to and the effects it asks for, in order; `none` if the signal means
nothing in this state. `interruptible` tells whether a start under way may be cut short. -/
def transition (state : State) (signal : Signal) (interruptible : Bool) :
    Option (State × List Effect) :=
  match state, signal with
  | .waiting, .dependenciesAvailable => some (.starting false, [.injectAndStart])
  | .waiting, .dependenciesUnavailable | .waiting, .stopping =>
    some (.removed, [.failStart .interrupted, .emitRemoved])
  | .starting false, .started => some (.started, [.completeStart])
  | .starting true, .started =>
    some (.stopping, [.failStart .removedWhileStarting, .invokeStop false])
  -- a service that failed to start holds nothing, so `stop` is not called
  | .starting _, .startFailed => some (.stopping, [.failStart .failed, .emitStopped])
  | .starting _, .dependenciesUnavailable | .starting _, .dependentsStopped
  | .starting _, .stopping =>
    if interruptible then some (.stopping, [.failStart .interrupted, .invokeStop true])
    else some (.starting true, [])
  | .started, .dependenciesUnavailable | .started, .stopping => some (.draining, [])
  | .draining, .dependentsStopped => some (.stopping, [.invokeStop false])
  | .stopping, .stopped => some (.removed, [.releaseInjected, .emitRemoved])
  | .removed, .removed => some (.removed, [.terminate])
  | _, _ => none

/-- One signal taken in, with the flag that held when it came. -/
abbrev Step := Signal × Bool

/-- The state after one signal; a signal that means nothing leaves the state as it is. -/
def State.next (state : State) (step : Step) : State :=
  match transition state step.1 step.2 with
  | some (next, _) => next
  | none => state

def State.effects (state : State) (step : Step) : List Effect :=
  match transition state step.1 step.2 with
  | some (_, effects) => effects
  | none => []

def State.run (state : State) (steps : List Step) : State := steps.foldl State.next state

def State.trace : State → List Step → List Effect
  | _, [] => []
  | state, step :: rest => state.effects step ++ (state.next step).trace rest

/-- What each signal of a sequence does, where it means something. -/
def State.walk : State → List Step → List (Option (State × List Effect))
  | _, [] => []
  | state, step :: rest => transition state step.1 step.2 :: (state.next step).walk rest

/-! ### Messages -/

inductive Event
  | dependenciesAvailable (values : List (Name × Value))
  | dependenciesUnavailable
  | dependentsStopped
  | stopping
  | started
  | startFailed (failure : Failure)
  | stopped
  | removed
  deriving DecidableEq, Inhabited

namespace Event

def signal : Event → Signal
  | .dependenciesAvailable _ => .dependenciesAvailable
  | .dependenciesUnavailable => .dependenciesUnavailable
  | .dependentsStopped => .dependentsStopped
  | .stopping => .stopping
  | .started => .started
  | .startFailed _ => .startFailed
  | .stopped => .stopped
  | .removed => .removed

/-- An event in one line: of the dependencies the names are shown, of a failure its message. -/
def text : Event → String
  | .dependenciesAvailable values =>
    "DependenciesAvailable(" ++ Text.quoteList (values.map Prod.fst) ++ ")"
  | .startFailed failure => "StartFailed(" ++ failure.message ++ ")"
  | e => e.signal.text

end Event

inductive GroupUpdate
  | added (group member : Name) (value : Value)
  | removed (group member : Name)
  deriving DecidableEq, Inhabited

/-- A change in one line; the value of a new member is not shown. -/
def GroupUpdate.text : GroupUpdate → String
  | .added group member _ =>
    "Added \x7b group: " ++ Text.quote group ++ ", name: " ++ Text.quote member
      ++ ", value: Any \x7b .. \x7d \x7d"
  | .removed group member =>
    "Removed \x7b group: " ++ Text.quote group ++ ", name: " ++ Text.quote member ++ " \x7d"

inductive Message
  | lifecycle (event : Event)
  | reference (update : GroupUpdate)
  deriving DecidableEq, Inhabited

def Message.text : Message → String
  | .lifecycle event => "Lifecycle(" ++ event.text ++ ")"
  | .reference update => "Reference(" ++ update.text ++ ")"

end ServiceHost
