import ServiceHost.System.Moves
/-!
One way to run a system: actors take turns in the order they were woken, and each acts until it can
do no more. Time stands still until nobody can act; then the timers due next go off together.
-/

namespace ServiceHost

/-! ### A budget

How much a system can still do at most: a bound on the moves it makes before it settles, computed
from everything its services may ever bring about. -/

mutual

/-- The number of things an action can bring about, nested installs included. -/
def Action.weight : Action → Nat
  | .install d => 1 + serviceWeight d
  | .composite c | .compositeAlone c => 1 + compositeWeight c
  | _ => 1

def actionsWeight : List Action → Nat
  | [] => 0
  | a :: rest => a.weight + actionsWeight rest

def callbacksWeight : Callbacks Action → Nat
  | .plain => 0
  | .scripted _ start stop => actionsWeight start + actionsWeight stop

def serviceWeight : Declaration Action → Nat
  | ⟨_, _, dependencies, slots, _, rosters, callbacks, _⟩ =>
    1 + dependencies.length + slots.length + rosters.length + callbacksWeight callbacks

def childWeight : ChildDeclaration Action → Nat
  | ⟨_, service⟩ => serviceWeight service

def childrenWeight : List (ChildDeclaration Action) → Nat
  | [] => 0
  | c :: rest => childWeight c + childrenWeight rest

def compositeWeight : CompositeDeclaration Action → Nat
  | ⟨_, dependencies, children⟩ =>
    1 + dependencies.length + children.length + childrenWeight children

end

def Conduct.weight : Conduct → Nat
  | .plain => 0
  | .scripted _ start stop _ _ => actionsWeight start + actionsWeight stop
  | .composite children => children.length

def Plan.weight (p : Plan) : Nat :=
  1 + p.dependencies.size + p.slots.size + p.rosters.size + p.conduct.weight

def Request.weight : Request → Nat
  | .install plan _ => 1 + plan.weight
  | _ => 1

namespace System

def weight (s : System) : Nat :=
  s.controllers.foldl (fun n c => n + c.plan.weight + c.inbox.length) 0
    + s.container.inbox.foldl (fun n r => n + r.weight) 0
    + s.tasks.length + s.ready.length + s.world.timers.length

/-- A number of moves that is more than a system of that weight makes before it settles: every
service is told about every other a bounded number of times. -/
def budget (s : System) : Nat :=
  let w := s.weight + 2
  16 * (w * w * w)

/-! ### Turns and timers -/

def settleFor : Nat → System → System
  | 0, s => s
  | fuel + 1, s =>
    match s.ready with
    | [] => s
    | a :: rest =>
      match s.nextMove? a with
      | none => settleFor fuel { s with ready := rest }
      | some m => settleFor fuel (s.perform m)

def settled (s : System) : System := settleFor s.budget s

/-- Whether a timer goes off before another: the time counts first, then the round. -/
def firesBefore (a b : Timer) : Bool := a.due < b.due || (a.due == b.due && a.round < b.round)

def nextTimer? (s : System) (limit : Nat) : Option Timer :=
  (s.world.timers.filter (·.due ≤ limit)).foldl
    (fun best t =>
      match best with
      | none => some t
      | some b => if firesBefore t b then some t else some b)
    none

/-- A timer goes off, along with those of the same time and round. -/
def fire (s : System) (next : Timer) : System :=
  settled ((s.world.timers.filter fun t => !firesBefore next t).foldl elapse s)

/-- Lets timers go off up to a time, for a number of times, unless `done` holds. -/
def runUntil (limit : Nat) (done : System → Bool) : Nat → System → System
  | 0, s => s
  | fuel + 1, s =>
    if done s then s
    else
      match s.nextTimer? limit with
      | none => s
      | some t => runUntil limit done fuel (s.fire t)

def advanceTo (s : System) (time : Nat) : System :=
  let round := s.world.round
  let s := runUntil time (fun _ => false) s.budget s
  { s with world := { s.world with clock := max s.world.clock time, round } }

end System

end ServiceHost
