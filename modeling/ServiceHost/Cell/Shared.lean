import ServiceHost.Cell
/-! Cells seen through several handles: every handle of a cell shows what was done through any of
them. -/

namespace ServiceHost

/-- Cells, and the handles by which they are reached: of each, the position of its cell. -/
structure Shared (α : Type) where
  cells : List α
  handles : List Nat

namespace Shared

variable {α : Type}

def single (cell : α) : Shared α := ⟨[cell], [0]⟩

def get? (s : Shared α) (handle : Nat) : Option α := s.handles[handle]?.bind (s.cells[·]?)

def set (s : Shared α) (handle : Nat) (cell : α) : Shared α :=
  match s.handles[handle]? with
  | none => s
  | some position => { s with cells := s.cells.set position cell }

def clone (s : Shared α) (handle : Nat) : Shared α :=
  match s.handles[handle]? with
  | none => s
  | some position => { s with handles := s.handles ++ [position] }

def add (s : Shared α) (cell : α) : Shared α :=
  ⟨s.cells ++ [cell], s.handles ++ [s.cells.length]⟩

def views (s : Shared α) : List α := s.handles.filterMap (s.cells[·]?)

end Shared

inductive SlotStep
  | inject (handle : Nat) (source : Name) (value : Value)
  | clear (handle : Nat)
  | clone (handle : Nat)
  | new (type : ValueType)

/-- What a step on a cell gives back; a refused value is answered by the type the cell expects. -/
inductive CellAnswer (V : Type := Value) (T : Type := ValueType)
  | done
  | expected (type : T)
  | handle (number : Nat)
  | flag (b : Bool)
  | value (v : Option V)

def Shared.slotStep (s : Shared Slot) : SlotStep → CellAnswer × Shared Slot
  | .inject handle source value =>
    match s.get? handle with
    | none => (.done, s)
    | some slot =>
      match slot.inject source value with
      | .ok slot => (.done, s.set handle slot)
      | .error type => (.expected type, s)
  | .clear handle =>
    match s.get? handle with
    | some slot => (.done, s.set handle slot.clear)
    | none => (.done, s)
  | .clone handle => (.handle s.handles.length, s.clone handle)
  | .new type => (.handle s.handles.length, s.add (Slot.empty type))

def Shared.slotPlay : Shared Slot → List SlotStep → List (CellAnswer × List Slot)
  | _, [] => []
  | s, step :: rest =>
    let (answer, s) := s.slotStep step
    (answer, s.views) :: s.slotPlay rest

inductive RosterStep (V : Type := Value)
  | add (handle : Nat) (member : Name) (value : V)
  | remove (handle : Nat) (member : Name)
  | clear (handle : Nat)
  | contains (handle : Nat) (member : Name)
  | get (handle : Nat) (member : Name)
  | clone (handle : Nat)

section

variable {V T : Type} [Typed V T] [DecidableEq T]

def Shared.rosterStep (s : Shared (Roster V T)) :
    RosterStep V → CellAnswer V T × List (HandlerCall V) × Shared (Roster V T)
  | .add handle member value =>
    match s.get? handle with
    | none => (.done, [], s)
    | some roster =>
      match roster.add member value with
      | .ok (roster, calls) => (.done, calls, s.set handle roster)
      | .error type => (.expected type, [], s)
  | .remove handle member =>
    match s.get? handle with
    | none => (.done, [], s)
    | some roster =>
      let (roster, calls) := roster.remove member
      (.done, calls, s.set handle roster)
  | .clear handle =>
    match s.get? handle with
    | some roster => (.done, [], s.set handle roster.clear)
    | none => (.done, [], s)
  | .contains handle member =>
    (.flag ((s.get? handle).any (·.contains member)), [], s)
  | .get handle member => (.value ((s.get? handle).bind (·.get? member)), [], s)
  | .clone handle => (.handle s.handles.length, [], s.clone handle)

/-- Carries out steps in order: the answer to each, the calls it made, and what each handle shows
after it. -/
def Shared.rosterPlay :
    Shared (Roster V T) → List (RosterStep V) →
      List (CellAnswer V T × List (HandlerCall V) × List (Roster V T))
  | _, [] => []
  | s, step :: rest =>
    let (answer, calls, s) := s.rosterStep step
    (answer, calls, s.views) :: s.rosterPlay rest

end

end ServiceHost
