import ServiceHost.System.Moves
/-! What can be asked of a container from outside. -/

namespace ServiceHost

/-- A request from outside that takes no time. A composite comes with its children, or alone. The
last two belong to closing in limited time: nobody else sees their answers. -/
inductive Operation
  | start
  | install (service : Service)
  | composite (unit : Composite)
  | compositeAlone (unit : Composite)
  | remove (name : Name)
  | has (name : Name)
  | state (name : Name)
  | text
  | close
  | closeInTime
  | textOfRest

/-- What is known of a request at once: only opening a container has an outcome then. -/
abbrev Immediate := Option (Except Error Unit)

namespace System

/-- What is held of the container from outside. -/
def runtime (s : System) : Runtime :=
  match s.container.stage with
  | .fresh => .idle
  | _ => if s.givenUp then .stopped else .running s.container.ended

def start (s : System) : Except Error System :=
  match s.runtime with
  | .idle =>
    .ok (({ s with container := { s.container with stage := .opened } }.log .info
      "🚀 Service container started").wake .container)
  | .running finished =>
    .error (.invalidState "start service container" (if finished then .closed else .opened))
  | .stopped => .error (.invalidState "start service container" .closed)

def ask (s : System) (subject : Option Subject) (request : Ticket → Request) : Ticket × System :=
  let (ticket, world) := s.world.pledge subject
  (ticket, { s with world }.send (request ticket))

def submit (s : System) (installs : Progress → Progress) : System :=
  let p := installs (.begin s.world)
  { s with world := p.world }.sendAll p.requests

def operate (s : System) (origin : Origin) : Operation → Immediate × System
  | .start =>
    match s.start with
    | .ok s => (some (.ok ()), s)
    | .error e => (some (.error e), s)
  | .install d => (none, s.submit (·.install origin none d))
  | .composite c => (none, s.submit (·.installComposite origin none c))
  | .compositeAlone c => (none, s.submit (·.installAlone origin none c))
  | .remove name => (none, (s.ask (some ⟨origin, "remove", name⟩) (.remove name)).2)
  | .has name => (none, (s.ask (some ⟨origin, "has", name⟩) (.has name)).2)
  | .state name => (none, (s.ask (some ⟨origin, "state", name⟩) (.state name)).2)
  | .text => (none, (s.ask (some ⟨origin, "dump", ""⟩) .text).2)
  | .close => (none, (s.ask (some ⟨origin, "close_async", ""⟩) .close).2)
  | .closeInTime => (none, (s.ask none .close).2)
  | .textOfRest => (none, (s.ask none .text).2)

/-- Makes the requests of a batch one after the other; they are numbered from `place` on. -/
def operateAll (round : Nat) : Nat → System → List Operation → List Immediate × System
  | _, s, [] => ([], s)
  | place, s, o :: rest =>
    let (outcome, s) := s.operate (.batched round place) o
    let (outcomes, s) := operateAll round (place + 1) s rest
    (outcome :: outcomes, s)

/-! ### Closing by force -/

/-- What is logged when time has run out, with the answer to the request for what is left. -/
def overdueText : Except Error Answer → String
  | .ok (.text graph) =>
    "Service container failed to close in time. Unresolved services:\n" ++ graph
  | .ok _ => "Service container failed to close in time. Unresolved services:\n"
  | .error e => s!"Service container failed to close in time: {e.message}"

/-- Closes by force, once what is left is known: it is logged, everything is told to stop, and the
task of the container is given up. -/
def forceClose (s : System) (rest : Except Error Answer) : System :=
  ((s.log .debug (overdueText rest)).cancel).giveUp

end System

end ServiceHost
