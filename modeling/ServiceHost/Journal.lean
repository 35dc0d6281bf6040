import ServiceHost.Cell
/-! The journal: what services record about themselves, and what can be read off it. -/

namespace ServiceHost

inductive Standing
  | none
  | starting
  | started
  | stopping
  | stopped
  | failed
  deriving DecidableEq, Repr, Inhabited

def Standing.text : Standing → String
  | .none => "none"
  | .starting => "starting"
  | .started => "started"
  | .stopping => "stopping"
  | .stopped => "stopped"
  | .failed => "failed"

/-- One thing recorded. The first notes of a callback tell how the declared dependencies, or the
dependents, stood. -/
inductive Note
  | start (dependencies : List (Name × Standing)) (slots : List (Label × Option Value))
  | get
  | stop (interrupted : Bool) (dependents : List (Name × Standing))
  | done (phase : Phase)
  | fail (phase : Phase)
  | panic (phase : Phase)
  | text (text : String)
  | context (name : Name) (interrupted : Option Bool)
  | read (label : Label) (cell : Option Cell)
  | refused (error : Error)
  | removal (name : Name) (result : String)
  | presence (name : Name) (present : Bool)
  | call (call : HandlerCall)
  deriving Inhabited

/-- The standing a note brings its service to, if it changes it. -/
def Note.standing? : Note → Option Standing
  | .start .. => some .starting
  | .get => some .started
  | .stop .. => some .stopping
  | .done .stop | .fail .stop | .panic .stop => some .stopped
  | .fail .start | .panic .start => some .failed
  | _ => none

structure Entry where
  time : Nat
  author : Name
  note : Note
  deriving Inhabited

/-- What was recorded, newest first. -/
abbrev Journal := List Entry

namespace Journal

/-- How a service stands: by its newest entry that says so. -/
def standing (j : Journal) (name : Name) : Standing :=
  (j.findSome? fun e => if e.author = name then e.note.standing? else none).getD .none

def declared? (j : Journal) (name : Name) : Option (List Name) :=
  j.findSome? fun e =>
    match e.note with
    | .start dependencies _ => if e.author = name then some (dependencies.map Prod.fst) else none
    | _ => none

def started (j : Journal) : List Name :=
  (Names.ofList (j.filterMap fun e =>
    match e.note with
    | .start .. => some e.author
    | _ => none)).toList

/-- How each service stands whose latest start declared a dependency on `name`. -/
def dependents (j : Journal) (name : Name) : List (Name × Standing) :=
  (j.started.filter fun s => ((j.declared? s).getD []).contains name).map fun s => (s, j.standing s)

end Journal

end ServiceHost
