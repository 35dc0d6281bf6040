import Std.Data.ExtTreeMap
import ServiceHost.Lifecycle
/-!
The dependency graph of the installed services: what is known about each of them, and the indexes
by which services find those that depend on them, belong to their groups or refer to those groups.

Dependencies are names. A service can depend on a name nobody is installed under, or on itself; it
then waits until that name is exposed.
-/

namespace ServiceHost

/-! ### Indexes -/

/-- Sets of names filed under a name. -/
abbrev Index := Std.ExtTreeMap Name Names compare

namespace Index

def members (index : Index) (key : Name) : List Name := (index[key]?.getD ∅).toList

def file (index : Index) (key name : Name) : Index :=
  index.insert key ((index[key]?.getD ∅).insert name)

/-- Takes a name out from under a key. A key with nothing left is dropped. -/
def unfile (index : Index) (key name : Name) : Index :=
  match index[key]? with
  | none => index
  | some names =>
    if (names.erase name).isEmpty then index.erase key else index.insert key (names.erase name)

def fileAll (index : Index) (keys : List Name) (name : Name) : Index :=
  keys.foldl (fun index key => index.file key name) index

def unfileAll (index : Index) (keys : List Name) (name : Name) : Index :=
  keys.foldl (fun index key => index.unfile key name) index

end Index

/-! ### Nodes -/

structure Registration where
  name : Name
  dependencies : Names
  group : Option Name
  references : Names

/-- An inbox, by number. Every registration comes with an inbox of its own. -/
abbrev Inbox := Nat

structure Delivery where
  inbox : Inbox
  message : Message
  deriving DecidableEq

/-- What is known about an installed service: the state its controller reported last, the value it
exposes while it is started and not stopping, and, while there are any, the dependents which have to
be removed before it can stop. -/
@[ext] structure Node where
  inbox : Inbox
  dependencies : Names
  group : Option Name
  references : Names
  state : State
  value : Option Value
  resolved : Bool
  stopping : Bool
  pendingDependents : Option Names

def Registration.node (r : Registration) (inbox : Inbox) : Node :=
  { inbox, dependencies := r.dependencies, group := r.group, references := r.references
    state := .waiting, value := none, resolved := false, stopping := false
    pendingDependents := none }

/-- The installed services by name, and the indexes over them: who depends on a name, installed or
not, who is a member of a group, and who refers to one. -/
@[ext] structure Graph where
  nodes : Std.ExtTreeMap Name Node compare
  dependents : Index
  groups : Index
  referrers : Index

/-- A graph after an operation, with the messages the operation sent, in order. -/
abbrev Graph.Outcome := Graph × List Delivery

namespace Graph

def empty : Graph := ⟨∅, ∅, ∅, ∅⟩

instance : Inhabited Graph := ⟨empty⟩

def contains (g : Graph) (name : Name) : Bool := g.nodes.contains name

def isEmpty (g : Graph) : Bool := g.nodes.isEmpty

def state? (g : Graph) (name : Name) : Option State := g.nodes[name]?.map Node.state

/-- The value a service exposes: it is installed, started and not stopping. -/
def exposed? (g : Graph) (name : Name) : Option Value :=
  g.nodes[name]?.bind fun node => if node.stopping then none else node.value

def dependentsOf (g : Graph) (name : Name) : List Name :=
  (g.dependents.members name).filter g.contains

def referrersOf (g : Graph) (group : Name) : List Name := g.referrers.members group

def exposedMembers (g : Graph) (group : Name) : List (Name × Value) :=
  (g.groups.members group).filterMap fun member => (g.exposed? member).map (member, ·)

/-- The values of all the dependencies of a set, if each of them is exposed. -/
def available? (g : Graph) (dependencies : Names) : Option (List (Name × Value)) :=
  dependencies.toList.mapM fun name => (g.exposed? name).map (name, ·)

def setNode (g : Graph) (name : Name) (node : Node) : Graph :=
  { g with nodes := g.nodes.insert name node }

/-- The messages which send one and the same message to each installed service of a list. -/
def notifyAll (g : Graph) (names : List Name) (message : Message) : List Delivery :=
  names.filterMap fun name => g.nodes[name]?.map fun node => ⟨node.inbox, message⟩

/-! ### Registration and delivery -/

/-- Delivers its dependencies to a service, once, when all of them are exposed and it is not
stopping. -/
def resolve (g : Graph) (name : Name) : Outcome :=
  match g.nodes[name]? with
  | none => (g, [])
  | some node =>
    if node.resolved || node.stopping then (g, [])
    else
      match g.available? node.dependencies with
      | none => (g, [])
      | some values =>
        (g.setNode name { node with resolved := true },
          [⟨node.inbox, .lifecycle (.dependenciesAvailable values)⟩])

def resolveAll : Graph → List Name → Outcome
  | g, [] => (g, [])
  | g, name :: rest =>
    let (g₁, sent₁) := g.resolve name
    let (g₂, sent₂) := g₁.resolveAll rest
    (g₂, sent₁ ++ sent₂)

/-- Adds a service whose name is not taken. It is told the exposed members of the groups it refers
to, group by group, and gets its dependencies if they are there already. -/
def register (g : Graph) (r : Registration) (inbox : Inbox) : Outcome :=
  let members := r.references.toList.flatMap fun group =>
    (g.exposedMembers group).map fun (member, value) =>
      (⟨inbox, .reference (.added group member value)⟩ : Delivery)
  let g₁ : Graph :=
    { nodes := g.nodes.insert r.name (r.node inbox)
      dependents := g.dependents.fileAll r.dependencies.toList r.name
      groups := g.groups.fileAll r.group.toList r.name
      referrers := g.referrers.fileAll r.references.toList r.name }
  let (g₂, sent) := g₁.resolve r.name
  (g₂, members ++ sent)

/-! ### Stopping -/

/-- A service starts to stop: it is no longer exposed, which referrers of its group and dependents
are told, and it may stop itself once those dependents are removed. Only the first call counts. -/
def beginStopping (g : Graph) (name : Name) : Outcome :=
  match g.nodes[name]? with
  | none => (g, [])
  | some node =>
    if node.stopping then (g, [])
    else
      let left := match node.value, node.group with
        | some _, some group =>
          g.notifyAll (g.referrersOf group) (.reference (.removed group name))
        | _, _ => []
      let dependents := g.dependentsOf name
      let stopped : Node := { node with stopping := true, value := none }
      let unavailable := g.notifyAll dependents (.lifecycle .dependenciesUnavailable)
      if dependents.isEmpty then
        (g.setNode name stopped, left ++ [⟨node.inbox, .lifecycle .dependentsStopped⟩])
      else
        (g.setNode name { stopped with
            pendingDependents := some (Names.ofList dependents) },
          left ++ unavailable)

/-- Strikes a removed dependent from those a stopping service has to wait for; the last one frees
it to stop. -/
def strike (g : Graph) (dependent name : Name) : Outcome :=
  match g.nodes[name]? with
  | none => (g, [])
  | some node =>
    match node.pendingDependents with
    | none => (g, [])
    | some pending =>
      if (pending.erase dependent).isEmpty then
        (g.setNode name { node with pendingDependents := none },
          [⟨node.inbox, .lifecycle .dependentsStopped⟩])
      else (g.setNode name { node with pendingDependents := some (pending.erase dependent) }, [])

def strikeAll (dependent : Name) : Graph → List Name → Outcome
  | g, [] => (g, [])
  | g, name :: rest =>
    let (g₁, sent₁) := g.strike dependent name
    let (g₂, sent₂) := strikeAll dependent g₁ rest
    (g₂, sent₁ ++ sent₂)

/-- Takes a removed service out of the graph and of every index. -/
def unregister (g : Graph) (name : Name) : Outcome :=
  match g.nodes[name]? with
  | none => (g, [])
  | some node =>
    let g₁ : Graph :=
      { nodes := g.nodes.erase name
        dependents := g.dependents.unfileAll node.dependencies.toList name
        groups := g.groups.unfileAll node.group.toList name
        referrers := g.referrers.unfileAll node.references.toList name }
    strikeAll name g₁ node.dependencies.toList

def requestRemoval (g : Graph) (name : Name) : Outcome :=
  match g.nodes[name]? with
  | none => (g, [])
  | some node =>
    let (g₁, sent) := g.beginStopping name
    (g₁, ⟨node.inbox, .lifecycle .stopping⟩ :: sent)

/-! ### Reports -/

/-- A service has started: its value is exposed, unless it is stopping already. Its dependents get
their dependencies, then the referrers of its group are told. -/
def exposeStarted (g : Graph) (name : Name) (value : Option Value) : Outcome :=
  match g.nodes[name]?, value with
  | some node, some value =>
    if node.stopping then (g, [])
    else
      let (g₁, sent) := (g.setNode name { node with value := some value }).resolveAll
        (g.dependentsOf name)
      let joined := node.group.toList.flatMap fun group =>
        g₁.notifyAll (g₁.referrersOf group) (.reference (.added group name value))
      (g₁, sent ++ joined)
  | _, _ => (g, [])

/-- Takes in the state a controller reports. Reports under a name nobody is installed under are
ignored. -/
def report (g : Graph) (name : Name) (state : State) (value : Option Value) : Outcome :=
  match g.nodes[name]? with
  | none => (g, [])
  | some node =>
    let g := g.setNode name { node with state }
    match state with
    | .waiting | .starting _ => (g, [])
    | .started => g.exposeStarted name value
    | .draining | .stopping => g.beginStopping name
    | .removed =>
      let (g₁, sent₁) := g.beginStopping name
      let (g₂, sent₂) := g₁.unregister name
      (g₂, sent₁ ++ sent₂)

/-! ### What is seen of a graph -/

/-- The services from which an orderly shutdown starts: those which still wait, since what they
wait for may never come, and those with no installed dependency. -/
def roots (g : Graph) : List Name :=
  (g.nodes.toList.filter fun (_, node) =>
    node.state = .waiting || !(node.dependencies.toList.any g.contains)).map Prod.fst

def dependencyLine (g : Graph) (dependency : Name) : String :=
  match g.nodes[dependency]? with
  | some node => s!"\n    -- {dependency} in {node.state.text}"
  | none => s!"\n    -- {dependency} (not installed)"

def text (g : Graph) : String :=
  "\n".intercalate (g.nodes.toList.map fun (name, node) =>
    s!"{name} in {node.state.text}"
      ++ String.join (node.dependencies.toList.map g.dependencyLine))

end Graph

end ServiceHost
