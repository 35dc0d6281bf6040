import Std.Data.ExtTreeSet
import ServiceHost.Text
/-!
What everything else is about: names, the values services expose to one another, the errors a
callback or a request can run into, and the promises made to whoever asked.
-/

namespace ServiceHost

/-! ### Names -/

abbrev Name := String

/-- A set of names, in ascending order. -/
abbrev Names := Std.ExtTreeSet Name compare

def Names.ofList (l : List Name) : Names := Std.ExtTreeSet.ofList l compare

structure NameView where
  name : Name
  text : String
  order : Ordering
  same : Bool

def NameView.of (other name : Name) : NameView :=
  { name, text := "ServiceName(" ++ Text.quote name ++ ")", order := compare name other
    same := name = other }

/-! ### Values -/

inductive ValueType
  | unit
  | str
  | u64
  | i64
  deriving DecidableEq, Repr, Inhabited

def ValueType.text : ValueType → String
  | .unit => "()"
  | .str => "alloc::string::String"
  | .u64 => "u64"
  | .i64 => "i64"

inductive Value
  | unit
  | str (text : String)
  | u64 (number : UInt64)
  | i64 (number : Int64)
  deriving DecidableEq, Inhabited

def Value.type : Value → ValueType
  | .unit => .unit
  | .str _ => .str
  | .u64 _ => .u64
  | .i64 _ => .i64

/-- Values each of which has a type, known when a value of some type is asked for. -/
class Typed (V : Type) (T : outParam Type) where
  typeOf : V → T

instance : Typed Value ValueType := ⟨Value.type⟩

@[simp] theorem typeOf_value (v : Value) : Typed.typeOf v = v.type := rfl

/-! ### Errors -/

/-- What a callback reports when it fails: a message and the causes behind it, outermost first. -/
structure Failure where
  message : String
  causes : List String
  deriving DecidableEq, Repr, Inhabited

namespace Failure

def ofMessage (message : String) : Failure := ⟨message, []⟩

def chain (f : Failure) : List String := f.message :: f.causes

def text (f : Failure) : String := ": ".intercalate f.chain

end Failure

inductive Stage
  | fresh
  | opened
  | closing
  | closed
  deriving DecidableEq, Repr, Inhabited

def Stage.text : Stage → String
  | .fresh => "new"
  | .opened => "open"
  | .closing => "closing"
  | .closed => "closed"

def Stage.label : Stage → String
  | .fresh => "New"
  | .opened => "Open"
  | .closing => "Closing"
  | .closed => "Closed"

/-- Every way in which a request to a container can go wrong. -/
inductive Error
  | namingConflict (name : Name)
  | invalidState (operation : String) (stage : Stage)
  | interrupted (name : Name)
  | removedWhileStarting (name : Name)
  | startFailure (name : Name) (source : Failure)
  | stopFailure (name : Name) (source : Failure)
  | typeMismatch (name dependency : Name) (expected : String)
  | alreadyDeferred
  | closeTimeout (timeout : Duration)
  | abandoned
  deriving DecidableEq, Repr, Inhabited

namespace Error

def kind : Error → String
  | .namingConflict _ => "NamingConflict"
  | .invalidState .. => "InvalidContainerState"
  | .interrupted _ => "Interrupted"
  | .removedWhileStarting _ => "RemovedWhileStarting"
  | .startFailure .. => "StartFailure"
  | .stopFailure .. => "StopFailure"
  | .typeMismatch .. => "TypeMismatch"
  | .alreadyDeferred => "AlreadyAsync"
  | .closeTimeout _ => "CloseTimeout"
  | .abandoned => "Abandoned"

def message : Error → String
  | .namingConflict name =>
    s!"Cannot install service with name '{name}', a service with the same name already exists"
  | .invalidState operation stage => s!"Cannot {operation}, container is '{stage.text}'"
  | .interrupted name => s!"Service {name} was interrupted"
  | .removedWhileStarting name => s!"Could not start service {name}, removed while starting"
  | .startFailure name _ => s!"Service {name} failed to start"
  | .stopFailure name _ => s!"Service {name} failed to stop"
  | .typeMismatch name dependency expected =>
    s!"Dependency {dependency} of service {name} does not expose a value of type {expected}"
  | .alreadyDeferred =>
    "Context is already async, cannot request asynchronous completion more than once"
  | .closeTimeout timeout => s!"Service container did not close within {timeout.text}"
  | .abandoned => "Operation was abandoned before it could complete"

/-- What lies behind an error, outermost first: only a failed callback has causes of its own. -/
def sources : Error → List String
  | .startFailure _ source | .stopFailure _ source => source.chain
  | _ => []

def shownMessage (e : Error) : String := Text.masked e.message

def shownSources (e : Error) : List String := e.sources.map Text.masked

def toFailure (e : Error) : Failure := ⟨e.message, e.sources⟩

def withName (kind : String) (name : Name) : String := kind ++ "(" ++ Text.quote name ++ ")"

/-- An error with its fields spelled out; `none` for those which hold the failure of a callback. -/
def fields? : Error → Option String
  | .namingConflict name => some (withName "NamingConflict" name)
  | .invalidState operation stage =>
    some ("InvalidContainerState \x7b operation: " ++ Text.quote operation ++ ", state: "
      ++ stage.label ++ " \x7d")
  | .interrupted name => some (withName "Interrupted" name)
  | .removedWhileStarting name => some (withName "RemovedWhileStarting" name)
  | .typeMismatch name dependency expected =>
    some ("TypeMismatch \x7b name: " ++ Text.quote name ++ ", dependency: " ++ Text.quote dependency
      ++ ", expected: " ++ Text.quote expected ++ " \x7d")
  | .alreadyDeferred => some "AlreadyAsync"
  | .closeTimeout timeout => some ("CloseTimeout(" ++ timeout.text ++ ")")
  | .abandoned => some "Abandoned"
  | .startFailure .. | .stopFailure .. => none

end Error

/-! ### Promises -/

/-- A promise is open until it is settled. -/
structure Promise (α : Type) where
  outcome : Option (Except Error α)

namespace Promise

variable {α : Type}

def pending : Promise α := ⟨none⟩

def isOpen (p : Promise α) : Bool := p.outcome.isNone

/-- Settles an open promise; a settled one stays as it is. -/
def settle (p : Promise α) (outcome : Except Error α) : Promise α :=
  ⟨p.outcome <|> some outcome⟩

def abandon (p : Promise α) : Promise α := p.settle (.error .abandoned)

end Promise

inductive PromiseStep
  | poll
  | complete (outcome : Except Error Nat)
  | drop

inductive PromiseAnswer
  | stillPending
  | settled (outcome : Except Error Nat)
  | completed (taken : Option Bool)
  | dropped (held : Bool)

/-- Carries out steps in order. Nothing follows once the outcome was seen. -/
def Promise.play : Promise Nat → List PromiseStep → List PromiseAnswer
  | _, [] => []
  | p, .poll :: rest =>
    match p.outcome with
    | none => .stillPending :: p.play rest
    | some outcome => [.settled outcome]
  | p, .complete outcome :: rest =>
    .completed (if p.isOpen then some true else none) :: (p.settle outcome).play rest
  | p, .drop :: rest => .dropped p.isOpen :: p.abandon.play rest

end ServiceHost
