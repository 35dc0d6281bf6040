import ServiceHost.Journal
import ServiceHost.Plan
import ServiceHost.Basic
/-! The world the services live in, shared by all actors: a clock with its timers, the cells, the
promises made, and what was recorded and logged. -/

namespace ServiceHost

/-- Whoever can act. Controllers and tasks are numbered in the order they were created. -/
inductive Actor
  | container
  | controller (id : Nat)
  | task (id : Nat)
  | watcher (id : Nat)
  deriving DecidableEq, Repr, Inhabited

/-- Someone to be woken. Of two timers due together, that of the earlier round of requests comes
first. -/
structure Timer where
  due : Nat
  round : Nat
  wakes : Actor
  deriving DecidableEq, Repr, Inhabited

inductive Level
  | debug
  | info
  | warn
  | error
  deriving DecidableEq, Repr, Inhabited

def Level.text : Level → String
  | .debug => "DEBUG"
  | .info => "INFO"
  | .warn => "WARN"
  | .error => "ERROR"

structure LogLine where
  time : Nat
  level : Level
  message : String
  deriving DecidableEq, Repr, Inhabited

def LogLine.text (l : LogLine) : String := l.level.text ++ " " ++ l.message

/-- A log line as it is shown: without the numbers of tasks. -/
def LogLine.shown (l : LogLine) : LogLine := { l with message := Text.masked l.message }

inductive Answer
  | done
  | value (value : Value)
  | flag (b : Bool)
  | state (state : Option State)
  | text (text : String)
  deriving DecidableEq, Inhabited

inductive Origin
  | request (round : Nat)
  | batched (round place : Nat)
  | callback (phase : Phase) (service : Name)
  deriving DecidableEq, Repr, Inhabited

def Origin.text : Origin → String
  | .request round => s!"{round}"
  | .batched round place => s!"{round}.{place}"
  | .callback phase service => s!"{phase.text}:{service}"

structure Subject where
  origin : Origin
  action : String
  name : Name
  deriving DecidableEq, Repr, Inhabited

def Subject.text (s : Subject) : String := s!"{s.origin.text} {s.action} {s.name}"

abbrev Ticket := Nat

structure Pledge where
  subject : Option Subject
  promise : Promise Answer

structure Resolution where
  time : Nat
  subject : Subject
  outcome : Except Error Answer

/-- What the actors share. Times are in milliseconds; logs and resolutions are kept newest first. -/
structure World where
  clock : Nat
  round : Nat
  timers : List Timer
  cells : Cells
  journal : Journal
  logs : List LogLine
  pledges : List Pledge
  resolutions : List Resolution

namespace World

def tick : Nat := 100

def initial : World :=
  { clock := 0, round := 0, timers := [], cells := ∅, journal := [], logs := [], pledges := []
    resolutions := [] }

instance : Inhabited World := ⟨initial⟩

def time (w : World) : Nat := w.clock / tick * tick

def record (w : World) (author : Name) (note : Note) : World :=
  { w with journal := ⟨w.time, author, note⟩ :: w.journal }

def log (w : World) (level : Level) (message : String) : World :=
  { w with logs := ⟨w.time, level, message⟩ :: w.logs }

/-- Logs that a `stop` failed; its service is removed all the same. -/
def logStopFailure (w : World) (name : Name) (source : Failure) : World :=
  w.log .error (Error.stopFailure name source).toFailure.text

def setTimer (w : World) (delay : Nat) (wakes : Actor) : World :=
  { w with timers := w.timers ++ [⟨w.clock + delay, w.round, wakes⟩] }

def pledge (w : World) (subject : Option Subject) : Ticket × World :=
  (w.pledges.length, { w with pledges := w.pledges ++ [⟨subject, .pending⟩] })

def outcome? (w : World) (ticket : Ticket) : Option (Except Error Answer) :=
  (w.pledges[ticket]?).bind (·.promise.outcome)

def settle (w : World) (ticket : Ticket) (outcome : Except Error Answer) : World :=
  match w.pledges[ticket]? with
  | none => w
  | some pledge =>
    if pledge.promise.isOpen then
      { w with
        pledges := w.pledges.set ticket { pledge with promise := pledge.promise.settle outcome }
        resolutions :=
          (pledge.subject.map fun subject => ⟨w.time, subject, outcome⟩).toList ++ w.resolutions }
    else w

def recordCalls (w : World) (label : Label) (calls : List HandlerCall) : World :=
  calls.foldl (fun w call => w.record label (.call call)) w

/-- Puts a member on a roster; a member of the wrong type is logged instead. -/
def addMember (w : World) (label : Label) (group member : Name) (value : Value) : World :=
  match w.cells.roster? label with
  | none => w
  | some roster =>
    match roster.add member value with
    | .ok (roster, calls) =>
      { w with cells := w.cells.insert label (.roster roster) }.recordCalls label calls
    | .error expected =>
      w.log .error
        s!"Member {member} of group {group} does not expose a value of type {expected.text}"

def removeMember (w : World) (label : Label) (member : Name) : World :=
  match w.cells.roster? label with
  | none => w
  | some roster =>
    let (roster, calls) := roster.remove member
    { w with cells := w.cells.insert label (.roster roster) }.recordCalls label calls

end World

end ServiceHost
