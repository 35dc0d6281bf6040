import ServiceHost.Graph
import ServiceHost.Script
/-! Plans: everything a controller needs to know about its service, put together by bindings made
one after the other. -/

namespace ServiceHost

/-- What a controller runs. A composite removes its children when it stops. -/
inductive Conduct
  | plain
  | scripted (immediate : Bool) (start stop : List Action) (dependencies : List Name)
    (slots : List Label)
  | composite (children : List Name)

/-- What is to be installed: with the slots bound to each dependency, in the order they were bound,
and the roster bound to each group referred to. -/
structure Plan where
  name : Name
  dependencies : Names
  slots : Std.ExtTreeMap Name (List Label) compare
  group : Option Name
  rosters : Std.ExtTreeMap Name Label compare
  value : Value
  conduct : Conduct

namespace Plan

def bare (name : Name) (value : Value) (conduct : Conduct) : Plan :=
  { name, value, conduct, dependencies := ∅, slots := ∅, group := none, rosters := ∅ }

def dependOn (p : Plan) (name : Name) : Plan :=
  { p with dependencies := p.dependencies.insert name }

def bindSlot (p : Plan) (name : Name) (label : Label) : Plan :=
  { p with
    dependencies := p.dependencies.insert name
    slots := p.slots.insert name (p.slots[name]?.getD [] ++ [label]) }

def join (p : Plan) (group : Name) : Plan := { p with group := some group }

/-- Binds a roster to a group, in place of the one bound before. -/
def bindRoster (p : Plan) (group : Name) (label : Label) : Plan :=
  { p with rosters := p.rosters.insert group label }

def registration (p : Plan) : Registration :=
  { name := p.name, dependencies := p.dependencies, group := p.group
    references := Names.ofList p.rosters.keys }

def slotsOf (p : Plan) (dependency : Name) : List Label := p.slots[dependency]?.getD []

end Plan

def Declaration.conduct (d : Service) : Conduct :=
  match d.callbacks with
  | .plain => .plain
  | .scripted immediate start stop =>
    .scripted immediate start stop
      (d.dependencies ++ d.slots.map SlotBinding.dependency) (d.slots.map SlotBinding.label)

/-- The plan of a declared service. `scope` is the service whose start creates it, which it then
depends on. -/
def Declaration.plan (d : Service) (scope : Option Name) : Plan :=
  let p := scope.toList.foldl Plan.dependOn (Plan.bare d.name d.value d.conduct)
  let p := d.dependencies.foldl Plan.dependOn p
  let p := d.slots.foldl (fun p s => p.bindSlot s.dependency s.label) p
  let p := d.group.toList.foldl Plan.join p
  d.rosters.foldl (fun p r => p.bindRoster r.group r.label) p

def CompositeDeclaration.services (c : Composite) : List Service :=
  c.children.map (·.named c.name)

/-- The plan of a composite itself: it depends on its children and on the dependencies it
declares. -/
def CompositeDeclaration.plan (c : Composite) (scope : Option Name) : Plan :=
  let children := Names.ofList (c.services.map Declaration.name)
  (scope.toList ++ c.dependencies ++ children.toList).foldl Plan.dependOn
    (Plan.bare c.name .unit (.composite children.toList))

end ServiceHost
