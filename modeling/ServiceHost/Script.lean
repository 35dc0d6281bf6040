import ServiceHost.Basic
/-! Services as they are declared, with callbacks given as data: a callback is a list of actions. -/

namespace ServiceHost

/-- The text by which installs name the slots and rosters they share. -/
abbrev Label := String

inductive Phase
  | start
  | stop
  deriving DecidableEq, Repr, Inhabited

def Phase.text : Phase → String
  | .start => "start"
  | .stop => "stop"

inductive Panic
  | message (text : String)
  | unreadable
  deriving DecidableEq, Repr, Inhabited

inductive Ending
  | done
  | fail (failure : Failure)
  | panic (panic : Panic)
  deriving DecidableEq, Repr, Inhabited

/-- Work a callback leaves to be done after it returned, with the milliseconds it takes. -/
structure Work where
  delay : Nat
  ending : Ending
  deriving DecidableEq, Repr, Inhabited

/-- What a callback defers its completion to. Blocking work runs on a thread of its own: once it has
begun, nobody can cut it short. -/
structure Completion extends Work where
  blocking : Bool
  deriving DecidableEq, Repr, Inhabited

structure SlotBinding where
  dependency : Name
  type : ValueType
  label : Label
  deriving DecidableEq, Repr, Inhabited

structure RosterBinding where
  group : Name
  type : ValueType
  label : Label
  handlers : Bool
  deriving DecidableEq, Repr, Inhabited

/-- The callbacks of a declared service, made of actions of type `α`. Plain ones return at once and
leave no trace; with `immediate`, `start` only records that it was called. -/
inductive Callbacks (α : Type)
  | plain
  | scripted (immediate : Bool) (start stop : List α)

/-- A service to be installed. The value of a dependency goes into a slot if one is bound to it;
with `forget`, nobody waits for the outcome of the install. -/
structure Declaration (α : Type) where
  name : Name
  value : Value
  dependencies : List Name
  slots : List SlotBinding
  group : Option Name
  rosters : List RosterBinding
  callbacks : Callbacks α
  forget : Bool

/-- A child of a composite: a service, or one named after the composite and a suffix. -/
structure ChildDeclaration (α : Type) where
  suffix : Option Name
  service : Declaration α

/-- A composite: a unit without work of its own that starts after its children and takes them with
it when it is removed. -/
structure CompositeDeclaration (α : Type) where
  name : Name
  dependencies : List Name
  children : List (ChildDeclaration α)

/-- One thing a callback does. Deferring its completion a second time is refused: `catching` goes on
all the same. A composite comes with its children, or alone: then they are installed one by one,
whenever that may be. -/
inductive Action
  | sleep (millis : Nat)
  | note (text : String)
  | context
  | read (label : Label)
  | fail (failure : Failure)
  | panic (panic : Panic)
  | runAsync (work : Work) (interruptible catching : Bool)
  | run (work : Work) (catching : Bool)
  | remove (name : Name) (awaited : Bool)
  | has (name : Name)
  | install (service : Declaration Action)
  | composite (unit : CompositeDeclaration Action)
  | compositeAlone (unit : CompositeDeclaration Action)

/-- Blocking work that takes no time. -/
def Action.runBlocking (ending : Ending) (catching : Bool) : Action := .run ⟨0, ending⟩ catching

abbrev Service := Declaration Action

abbrev Child := ChildDeclaration Action

abbrev Composite := CompositeDeclaration Action

def ChildDeclaration.named {α : Type} (child : ChildDeclaration α) (unit : Name) : Declaration α :=
  match child.suffix with
  | none => child.service
  | some suffix => { child.service with name := s!"{unit}.{suffix}" }

end ServiceHost
