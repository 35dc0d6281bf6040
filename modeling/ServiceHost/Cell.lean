import Std.Data.ExtTreeMap
import ServiceHost.Script
/-!
Slots and rosters: a slot holds the value of one dependency while a service runs on it, a roster the
present members of a group. The cells of all installs are kept by label.
-/

namespace ServiceHost

/-! ### Slots -/

/-- A slot accepts values of one type, and remembers whom the value came from. -/
structure Slot where
  type : ValueType
  content : Option (Name × Value)
  deriving DecidableEq, Inhabited

namespace Slot

def empty (type : ValueType) : Slot := ⟨type, none⟩

/-- Puts a value in, over what was there. A value of another type is refused, with the type the
slot expects, and changes nothing. -/
def inject (slot : Slot) (source : Name) (value : Value) : Except ValueType Slot :=
  if value.type = slot.type then .ok { slot with content := some (source, value) }
  else .error slot.type

def clear (slot : Slot) : Slot := { slot with content := none }

def isFilled (slot : Slot) : Bool := slot.content.isSome

def source? (slot : Slot) : Option Name := slot.content.map Prod.fst

def value? (slot : Slot) : Option Value := slot.content.map Prod.snd

def text (slot : Slot) : String :=
  "Injector \x7b injected: "
    ++ (match slot.source? with
        | some source => "Some(" ++ Text.quote source ++ ")"
        | none => "None")
    ++ " \x7d"

end Slot

/-! ### Rosters

A roster does not care what values and types there are, only whether a value has the type it
expects. -/

inductive HandlerCall (V : Type := Value)
  | added (member : Name) (value : V)
  | removed (member : Name) (value : V)
  deriving DecidableEq, Inhabited

/-- A roster accepts values of one type. With `handlers`, members that join or leave are called
out. -/
structure Roster (V : Type := Value) (T : Type := ValueType) where
  type : T
  handlers : Bool
  members : Std.ExtTreeMap Name V compare

namespace Roster

variable {V T : Type}

def empty (type : T) (handlers : Bool) : Roster V T := ⟨type, handlers, ∅⟩

instance : Inhabited Roster := ⟨empty .unit false⟩

def calls (roster : Roster V T) (call : HandlerCall V) : List (HandlerCall V) :=
  if roster.handlers then [call] else []

/-- Puts a member on the roster, over the value it was there with. A value of another type is
refused, with the type the roster expects; it changes nothing and calls nobody. -/
def add [Typed V T] [DecidableEq T] (roster : Roster V T) (member : Name) (value : V) :
    Except T (Roster V T × List (HandlerCall V)) :=
  if Typed.typeOf value = roster.type then
    .ok ({ roster with members := roster.members.insert member value },
      roster.calls (.added member value))
  else .error roster.type

def remove (roster : Roster V T) (member : Name) : Roster V T × List (HandlerCall V) :=
  match roster.members[member]? with
  | none => (roster, [])
  | some value =>
    ({ roster with members := roster.members.erase member }, roster.calls (.removed member value))

def clear (roster : Roster V T) : Roster V T := { roster with members := ∅ }

def size (roster : Roster V T) : Nat := roster.members.size

def isEmpty (roster : Roster V T) : Bool := roster.members.isEmpty

def contains (roster : Roster V T) (member : Name) : Bool := roster.members.contains member

def get? (roster : Roster V T) (member : Name) : Option V := roster.members[member]?

def names (roster : Roster V T) : List Name := roster.members.keys

def values (roster : Roster V T) : List V := roster.members.toList.map Prod.snd

end Roster

/-! ### Cells by label -/

inductive Cell
  | slot (slot : Slot)
  | roster (roster : Roster)
  deriving Inhabited

abbrev Cells := Std.ExtTreeMap Label Cell compare

namespace Cells

def create (cells : Cells) (label : Label) (cell : Cell) : Cells := cells.insertIfNew label cell

/-- Creates the cells a declared service binds, as far as they are new. -/
def createFor (cells : Cells) (d : Service) : Cells :=
  let cells := d.slots.foldl (fun cells s => cells.create s.label (.slot (.empty s.type))) cells
  d.rosters.foldl (fun cells r => cells.create r.label (.roster (.empty r.type r.handlers))) cells

def slot? (cells : Cells) (label : Label) : Option Slot :=
  match cells[label]? with
  | some (.slot slot) => some slot
  | _ => none

def roster? (cells : Cells) (label : Label) : Option Roster :=
  match cells[label]? with
  | some (.roster roster) => some roster
  | _ => none

def value? (cells : Cells) (label : Label) : Option Value := (cells.slot? label).bind Slot.value?

/-- Puts a value into the slots of a list, up to the first that refuses it. -/
def inject (source : Name) (value : Value) :
    Cells → List Label → Cells × Except ValueType Unit
  | cells, [] => (cells, .ok ())
  | cells, label :: rest =>
    match cells.slot? label with
    | none => inject source value cells rest
    | some slot =>
      match slot.inject source value with
      | .ok slot => inject source value (cells.insert label (.slot slot)) rest
      | .error expected => (cells, .error expected)

def clearSlot (cells : Cells) (label : Label) : Cells :=
  match cells.slot? label with
  | none => cells
  | some slot => cells.insert label (.slot slot.clear)

def clearRoster (cells : Cells) (label : Label) : Cells :=
  match cells.roster? label with
  | none => cells
  | some roster => cells.insert label (.roster roster.clear)

end Cells

end ServiceHost
