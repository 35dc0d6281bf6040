import ServiceHost.System.Basic
/-!
What can happen next in a system. `canMove` says which moves of its actors are possible, `perform`
makes one of them, and `movesOf` lists those of one actor, in the order in which it prefers them.
-/

namespace ServiceHost.System

/-! ### The controllers -/

def callOff (s : System) (id : Nat) : System :=
  match s.tasks[id]? with
  | none => s
  | some t => (s.setTask id { t with unwanted := true }).wake (.watcher id)

def launchTask (s : System) (owner : Nat) (phase : Phase) (work : Completion) : System :=
  match s.controllers[owner]? with
  | none => s
  | some c =>
    let id := s.tasks.length
    let s := s.setController owner { c with pending := some id }
    { s with
      tasks := s.tasks ++ [Task.launch owner c.name phase work]
      world := s.world.setTimer gracePeriod (.watcher id) }.wakeAll [.task id, .watcher id]

/-- A controller ends: a promise it still holds is abandoned. -/
def endController (s : System) (id : Nat) (c : Controller) : System :=
  ((s.setController id { c with ended := true, inbox := [], install := none }).settleAll
    c.install.toList (.error .abandoned)).noticeEnd

/-- Puts a controller's turn into effect. -/
def applyTurn (s : System) (id : Nat) (t : Turn) : System :=
  let s := { s with world := t.world }.setController id t.controller
  let s := t.calledOff.toList.foldl callOff s
  let s := s.sendAll t.requests
  let s := t.deferred.toList.foldl (fun s (phase, work) => s.launchTask id phase work) s
  let s := s.sendAll t.reported.toList
  if t.controller.ended then s.endController id t.controller else s

def take (s : System) (id : Nat) : System :=
  match s.controllers[id]? with
  | none => s
  | some c => s.applyTurn id (c.take id s.world)

def resume (s : System) (id : Nat) : System :=
  match s.controllers[id]? with
  | none => s
  | some c => s.applyTurn id (c.resume id s.world)

def cancelController (s : System) (id : Nat) : System :=
  match s.controllers[id]? with
  | none => s
  | some c => (s.log .warn c.cancelText).endController id c

/-! ### The tasks -/

def runTask (s : System) (id : Nat) : System :=
  match s.tasks[id]? with
  | none => s
  | some t =>
    let (t, world) := t.run id s.world
    let s := { s with world }.setTask id t
    if t.outcome?.isSome then (s.wake (.watcher id)).noticeEnd else s

/-- A watcher passes on how its task ended. -/
def joinTask (s : System) (id : Nat) : System :=
  match s.tasks[id]? with
  | none => s
  | some t =>
    match t.outcome? with
    | none => s
    | some outcome =>
      let world := t.logOutcome outcome s.world
      let s := { s with world }.setTask id { t with watched := false }
      (s.deliver ⟨t.owner, .lifecycle (t.event outcome)⟩).noticeEnd

def callOffTask (s : System) (id : Nat) : System :=
  match s.tasks[id]? with
  | none => s
  | some t => (s.setTask id t.callOff).noticeEnd

def warnOverdue (s : System) (id : Nat) : System :=
  match s.tasks[id]? with
  | none => s
  | some t => (s.log .warn t.overdueText).setTask id { t with overdue := false }

/-! ### Moves -/

/-- What an actor can do next: the container takes a request, notices that everything was told to
stop, or finds everyone done; a controller takes a message, goes on with a callback, or notices that
everything was told to stop; a task goes on; a watcher finds its task ended, calls it off, or warns
that the grace period is over. -/
inductive Move
  | receive
  | force
  | finish
  | take (id : Nat)
  | resume (id : Nat)
  | cancel (id : Nat)
  | run (id : Nat)
  | join (id : Nat)
  | callOff (id : Nat)
  | warn (id : Nat)
  deriving DecidableEq, Repr

def canMove (s : System) : Move → Bool
  | .receive => s.container.isServing && !s.container.inbox.isEmpty
  | .force => s.container.isServing && s.cancelled
  | .finish => s.container.stage = .closed && !s.container.ended && s.isQuiet
  | .take id => s.controllers[id]?.any (·.canTake)
  | .resume id => s.controllers[id]?.any (·.canResume s.world)
  | .cancel id => s.cancelled && s.controllers[id]?.any fun c => !c.ended && c.callback.isNone
  | .run id => s.tasks[id]?.any (·.canRun)
  | .join id => s.tasks[id]?.any fun t => t.watched && t.outcome?.isSome
  | .callOff id => s.tasks[id]?.any fun t => t.watched && (t.unwanted || s.cancelled)
  | .warn id => s.tasks[id]?.any fun t => t.watched && t.overdue

def performNow (s : System) : Move → System
  | .receive => s.receive
  | .force => s.shutDown
  | .finish => s.finish
  | .take id => s.take id
  | .resume id => s.resume id
  | .cancel id => s.cancelController id
  | .run id => s.runTask id
  | .join id => s.joinTask id
  | .callOff id => s.callOffTask id
  | .warn id => s.warnOverdue id

def perform (s : System) (m : Move) : System := if s.canMove m then s.performNow m else s

/-- The moves an actor may make, the one it prefers first. -/
def movesOf : Actor → List Move
  | .container => [.force, .receive, .finish]
  | .controller id => [.cancel id, .resume id, .take id]
  | .task id => [.run id]
  | .watcher id => [.join id, .callOff id, .warn id]

def nextMove? (s : System) (a : Actor) : Option Move := (movesOf a).find? s.canMove

/-! ### Time and cancellation -/

/-- Whoever waited for a timer can act. -/
def alarm (s : System) (a : Actor) : System :=
  let s := match a with
    | .container => s
    | .controller id => { s with controllers := s.controllers.modify id Controller.alarm }
    | .task id => { s with tasks := s.tasks.modify id Task.alarm }
    | .watcher id => { s with tasks := s.tasks.modify id Task.graceOver }
  s.wake a

def elapse (s : System) (t : Timer) : System :=
  if t ∈ s.world.timers then
    { s with world := { s.world with
        clock := max s.world.clock t.due, round := t.round
        timers := s.world.timers.erase t } }.alarm t.wakes
  else s

/-- Tells everyone to stop where they are. -/
def cancel (s : System) : System :=
  { s with cancelled := true }.wakeAll (Actor.container ::
    (List.range s.controllers.length).map Actor.controller ++
    (List.range s.tasks.length).map Actor.watcher)

/-- The task of a container that was told to stop is given up. -/
def giveUp (s : System) : System := if s.cancelled then { s with givenUp := true } else s

end ServiceHost.System
