import ServiceHost.Controller
import ServiceHost.Task
/-!
The whole system: the container, the controllers of all services ever installed, and the tasks
their callbacks left. Each of them is an actor, and they only share the world and the messages,
requests and answers they send to one another.
-/

namespace ServiceHost

/-! ### The container -/

/-- The container: it owns the graph and takes its requests in order, one at a time. It holds the
promises to answer once a service, or everything, is removed. -/
structure Container where
  stage : Stage
  ended : Bool
  inbox : List Request
  graph : Graph
  removals : Std.ExtTreeMap Name (List Ticket) compare
  closing : List Ticket

/-- What is held of a container from outside: all of it before it is opened, then only its task,
until that is given up. -/
inductive Runtime
  | idle
  | running (finished : Bool)
  | stopped
  deriving DecidableEq, Repr, Inhabited

namespace Container

def fresh : Container :=
  { stage := .fresh, ended := false, inbox := [], graph := .empty, removals := ∅, closing := [] }

def isServing (c : Container) : Bool := c.stage = .opened || c.stage = .closing

def refusal? (c : Container) (request : Request) : Option Error :=
  if c.isServing then none else some (.invalidState request.operation c.stage)

end Container

/-! ### The state of everything -/

/-- The state of the whole system. Controllers and tasks are kept by number, and `ready` lists who
was woken and did not act since, in the order of being woken. -/
structure System where
  world : World
  container : Container
  controllers : List Controller
  tasks : List Task
  cancelled : Bool
  givenUp : Bool
  ready : List Actor

namespace System

def initial : System :=
  { world := .initial, container := .fresh, controllers := [], tasks := [], cancelled := false
    givenUp := false, ready := [] }

instance : Inhabited System := ⟨initial⟩

def wake (s : System) (a : Actor) : System :=
  if a ∈ s.ready then s else { s with ready := s.ready ++ [a] }

def wakeAll (s : System) (actors : List Actor) : System := actors.foldl wake s

def setController (s : System) (id : Nat) (c : Controller) : System :=
  { s with controllers := s.controllers.set id c }

def setTask (s : System) (id : Nat) (t : Task) : System := { s with tasks := s.tasks.set id t }

def log (s : System) (level : Level) (message : String) : System :=
  { s with world := s.world.log level message }

/-- Someone is done; a container that is only waiting for that is woken. -/
def noticeEnd (s : System) : System :=
  if s.container.stage = .closed then s.wake .container else s

def isQuiet (s : System) : Bool := s.controllers.all (·.ended) && s.tasks.all (·.isOver)

/-! ### Messages, requests and answers -/

/-- Puts a message into the inbox of a controller. Once the controller has ended, it is lost. -/
def deliver (s : System) (d : Delivery) : System :=
  match s.controllers[d.inbox]? with
  | none => s
  | some c =>
    if c.ended then s
    else
      let s := s.setController d.inbox { c with inbox := c.inbox ++ [d.message] }
      if c.callback.isNone then s.wake (.controller d.inbox) else s

def deliverAll (s : System) (sent : List Delivery) : System := sent.foldl deliver s

def awaiting (s : System) (ticket : Ticket) : List Actor :=
  s.controllers.zipIdx.filterMap fun (c, id) =>
    match c.callback with
    | some { wait := .answer t _, .. } => if t = ticket then some (.controller id) else none
    | _ => none

def settle (s : System) (ticket : Ticket) (outcome : Except Error Answer) : System :=
  { s with world := s.world.settle ticket outcome }.wakeAll (s.awaiting ticket)

def settleAll (s : System) (tickets : List Ticket) (outcome : Except Error Answer) : System :=
  tickets.foldl (fun s t => s.settle t outcome) s

def refuse (s : System) (request : Request) (e : Error) : System :=
  match request with
  | .install plan ticket =>
    (s.log .error s!"Failed to install service {plan.name}: {e.message}").settle ticket (.error e)
  | _ => s.settleAll request.ticket?.toList (.error e)

/-- Sends a request to the container, or turns it down if the container takes none. -/
def send (s : System) (request : Request) : System :=
  match s.container.refusal? request with
  | some e => s.refuse request e
  | none =>
    { s with container := { s.container with inbox := s.container.inbox ++ [request] } }.wake
      .container

def sendAll (s : System) (requests : List Request) : System := requests.foldl send s

/-! ### What the container does -/

def applyGraph (s : System) (outcome : Graph.Outcome) : System :=
  { s with container := { s.container with graph := outcome.1 } }.deliverAll outcome.2

def install (s : System) (plan : Plan) (ticket : Ticket) : System :=
  if s.container.stage ≠ .opened then
    s.refuse (.install plan ticket) (.invalidState "install service" s.container.stage)
  else if s.container.graph.contains plan.name then
    s.refuse (.install plan ticket) (.namingConflict plan.name)
  else
    let id := s.controllers.length
    let s := { s with controllers := s.controllers ++ [Controller.launch plan ticket] }
    (s.wake (.controller id)).applyGraph (s.container.graph.register plan.registration id)

def remove (s : System) (name : Name) (ticket : Ticket) : System :=
  if s.container.graph.contains name then
    let s := s.applyGraph (s.container.graph.requestRemoval name)
    { s with container := { s.container with
        removals := s.container.removals.insert name
          (s.container.removals[name]?.getD [] ++ [ticket]) } }
  else s.settle ticket (.ok .done)

/-- Once a closing container has no service left, it is closed. -/
def closeIfEmpty (s : System) : System :=
  if s.container.stage = .closing && s.container.graph.isEmpty then
    { s with container := { s.container with stage := .closed } }
  else s

def acceptReport (s : System) (name : Name) (state : State) (value : Option Value) : System :=
  let s := s.applyGraph (s.container.graph.report name state value)
  if state = .removed then
    let tickets := s.container.removals[name]?.getD []
    let s := { s with container := { s.container with
      removals := s.container.removals.erase name } }
    (s.settleAll tickets (.ok .done)).closeIfEmpty
  else s

/-- Begins to close: every service without an installed dependency, and every service that still
waits, is asked to stop. -/
def close (s : System) (ticket : Ticket) : System :=
  if s.container.stage ≠ .opened then
    s.settle ticket (.error (.invalidState "close service container" s.container.stage))
  else
    let s := s.log .info "🔌 Closing service container"
    let s := { s with container := { s.container with
      stage := .closing, closing := s.container.closing ++ [ticket] } }
    (s.container.graph.roots.foldl
      (fun s root => s.applyGraph (s.container.graph.requestRemoval root)) s).closeIfEmpty

def process (s : System) : Request → System
  | .install plan ticket => s.install plan ticket
  | .remove name ticket => s.remove name ticket
  | .has name ticket => s.settle ticket (.ok (.flag (s.container.graph.contains name)))
  | .state name ticket => s.settle ticket (.ok (.state (s.container.graph.state? name)))
  | .text ticket => s.settle ticket (.ok (.text s.container.graph.text))
  | .close ticket => s.close ticket
  | .report name state value => s.acceptReport name state value

/-- The container stops taking requests: those left in its inbox are turned down. If everything was
told to stop, it ends here, and the promises it holds are abandoned. -/
def shutDown (s : System) : System :=
  let left := s.container.inbox
  let s := { s with container := { s.container with stage := .closed, inbox := [] } }
  let s := left.foldl (fun s r => s.refuse r (.invalidState "complete request" .closed)) s
  if s.cancelled then
    let s := s.log .warn "⚠️  Service container was closed forcefully"
    let held := s.container.removals.values.flatten ++ s.container.closing
    let s := { s with container := { s.container with
      ended := true, removals := ∅, closing := [] } }
    s.settleAll held (.error .abandoned)
  else s

def receive (s : System) : System :=
  match s.container.inbox with
  | [] => s
  | request :: rest =>
    let s := { s with container := { s.container with inbox := rest } }.process request
    if s.container.stage = .closed then s.shutDown else s

/-- The last controller and the last task are done: closing is complete. -/
def finish (s : System) : System :=
  let s := s.log .info "🔌 Service container closed"
  let closing := s.container.closing
  let left := s.container.removals.values.flatten
  let s := { s with container := { s.container with
    ended := true, removals := ∅, closing := [] } }
  (s.settleAll closing (.ok .done)).settleAll left (.error .abandoned)

end System

end ServiceHost
