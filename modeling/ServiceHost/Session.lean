import ServiceHost.Run
/-!
Sessions: a container driven from outside, one step after the other, under a clock that only moves
when a step lets it. What is seen of a step is given in an order that does not depend on the order
in which independent actors took their turns.

Main statement: the system of a session is reachable, so whatever holds after every run holds of
what is executed.
-/

namespace ServiceHost

/-! ### Outcomes as they are written

The written form tells outcomes apart, and puts them in order when nothing else does. -/

def Value.json : Value → String
  | .unit => Json.record [("unit", "null")]
  | .str text => Json.record [("str", Json.text text)]
  | .u64 number => Json.record [("u64", s!"{number}")]
  | .i64 number => Json.record [("i64", s!"{number}")]

def Answer.json : Answer → String
  | .done | .state none => "null"
  | .value v => v.json
  | .flag b => s!"{b}"
  | .state (some s) => Json.text s.label
  | .text t => Json.text t

/-- What a promise came to: what it gives, or what went wrong as it is shown. -/
def outcomeJson : Except Error Answer → String
  | .ok answer => Json.record [("ok", answer.json)]
  | .error e => Json.record [("error", Json.text e.kind), ("message", Json.text e.shownMessage),
      ("sources", Json.list (e.shownSources.map Json.text))]

/-! ### Steps -/

/-- A step of a session. The requests of a batch are made before anyone acts; closing goes by force
once a number of milliseconds has passed. -/
inductive SessionStep
  | request (operation : Operation)
  | batch (operations : List Operation)
  | close (timeout : Nat)
  | advance (millis : Nat)
  | drop

inductive Reply
  | outcome (o : Immediate)
  | batch (outcomes : List Immediate)
  | dropped

structure SessionReport where
  time : Nat
  reply : Reply
  resolved : List Resolution
  journal : List Entry
  logs : List LogLine
  cells : List (Label × Cell)
  graph : Option (Except Error String)

structure Session where
  system : System
  round : Nat
  dropped : Bool

namespace Session

def fresh : Session := ⟨.initial, 0, false⟩

def graph? (s : System) : Except Error String :=
  match s.container.refusal? (.text 0) with
  | some e => .error e
  | none => .ok s.container.graph.text

/-- Closes the container and lets time pass until that is complete, but no longer than `timeout`;
then it is closed by force, and time goes on to the next tick. -/
def close (s : System) (timeout : Nat) : Except Error Unit × System :=
  let round := s.world.round
  let limit := s.world.clock + timeout
  let (ticket, s) := s.ask none .close
  let s := s.settled
  let s := System.runUntil limit (fun s => (s.world.outcome? ticket).isSome) s.budget s
  match s.world.outcome? ticket with
  | some outcome => (outcome.map fun _ => (), { s with world := { s.world with round } })
  | none =>
    let (ticket, s) := System.ask
      { s with world := { s.world with clock := max s.world.clock limit, round } } none .text
    let s := s.settled
    let s := (s.forceClose ((s.world.outcome? ticket).getD (.error .abandoned))).settled
    let nextTick := (limit / World.tick + 1) * World.tick
    (.error (.closeTimeout (.ofMillis timeout)), s.advanceTo nextTick)

def make (s : System) (round : Nat) : SessionStep → Reply × System
  | .request o =>
    let (outcome, s) := s.operate (.request round) o
    (.outcome outcome, s.settled)
  | .batch os =>
    let (outcomes, s) := s.operateAll round 0 os
    (.batch outcomes, s.settled)
  | .close timeout =>
    let (outcome, s) := close s timeout
    (.outcome (some outcome), s)
  | .advance millis => (.outcome none, s.advanceTo (s.world.clock + millis))
  | .drop => (.outcome none, s.cancel.settled)

/-! ### What is seen -/

/-- Promises are listed by the time they were settled, then by subject, then by outcome
as it is written. -/
def resolutionBefore (a b : Resolution) : Bool :=
  a.time < b.time || (a.time == b.time &&
    (a.subject.text < b.subject.text || (a.subject.text == b.subject.text &&
      !(outcomeJson b.outcome < outcomeJson a.outcome))))

def entryBefore (a b : Entry) : Bool :=
  a.time < b.time || (a.time == b.time && !(b.author < a.author))

def lineBefore (a b : LogLine) : Bool :=
  a.time < b.time || (a.time == b.time && !(b.text < a.text))

/-- The entries a list has at its front beyond those of an older state of it, oldest first. -/
def news {α : Type} (old new : List α) : List α := (new.take (new.length - old.length)).reverse

/-- Makes a step and shows it. Once the container was let go of, only time can pass. -/
def step (s : Session) (step : SessionStep) : SessionReport × Session :=
  let before := { s.system with world := { s.system.world with round := s.round } }
  let (reply, after) :=
    match s.dropped, step with
    | true, .advance _ | false, _ => make before s.round step
    | true, _ => (.dropped, before)
  let dropped := s.dropped || match step with
    | .drop => true
    | _ => false
  let old := before.world
  let new := after.world
  ({ time := new.time, reply
     resolved := (news old.resolutions new.resolutions).mergeSort resolutionBefore
     journal := (news old.journal new.journal).mergeSort entryBefore
     logs := ((news old.logs new.logs).map LogLine.shown).mergeSort lineBefore
     cells := new.cells.toList
     graph := if dropped then none else some (graph? after) },
    ⟨after, s.round + 1, dropped⟩)

def play : Session → List SessionStep → List SessionReport × Session
  | s, [] => ([], s)
  | s, o :: rest =>
    let (report, s) := s.step o
    let (reports, s) := s.play rest
    (report :: reports, s)

def unsettled (s : Session) : List String :=
  (Names.ofList (s.system.world.pledges.filterMap fun p =>
    if p.promise.isOpen then p.subject.map Subject.text else none)).toList

/-! ### Sessions are runs -/

section Reachable

variable {s : System} (h : s.Reachable)
include h

theorem reachable_round (round : Nat) :
    System.Reachable { s with world := { s.world with round } } := by
  have hwait : s.apply (.wait s.world.clock round) =
      { s with world := { s.world with round } } := by
    simp [System.apply]
  exact hwait ▸ h.run [.wait s.world.clock round]

theorem reachable_operateAll (round place : Nat) (os : List Operation) :
    (s.operateAll round place os).2.Reachable := by
  induction os generalizing s place with
  | nil => exact h
  | cons o rest ih => exact ih (h.run [.request (.batched round place) o]) (place + 1)

theorem reachable_forced (limit round : Nat) (rest : Except Error Answer) :
    ((System.ask { s with world := { s.world with clock := max s.world.clock limit, round } } none
      .text).2.settled.forceClose rest).settled.Reachable := by
  have htold := (h.run [.wait limit round, .request (.request 0) .textOfRest]).goesOnTo
    (System.goesOnTo_settled _)
  exact (htold.forceClose rest).goesOnTo (System.goesOnTo_settled _)

theorem reachable_close (timeout : Nat) : (close s timeout).2.Reachable := by
  have hasked : System.Reachable (s.ask none .close).2.settled :=
    (h.run [.request (.request 0) .closeInTime]).goesOnTo (System.goesOnTo_settled _)
  have hwaited := hasked.goesOnTo (System.goesOnTo_runUntil (s.world.clock + timeout)
    (fun t => (t.world.outcome? (s.ask none .close).1).isSome)
    (s.ask none .close).2.settled.budget _)
  unfold close
  dsimp only
  generalize System.runUntil _ _ _ _ = waited at hwaited ⊢
  split
  · exact reachable_round hwaited s.world.round
  · dsimp only
    refine System.Reachable.goesOnTo ?_ (System.goesOnTo_advanceTo _ _)
    exact reachable_forced hwaited _ _ _

theorem reachable_make (round : Nat) (step : SessionStep) : (make s round step).2.Reachable := by
  cases step with
  | request o =>
    exact (h.run [.request (.request round) o]).goesOnTo (System.goesOnTo_settled _)
  | batch os => exact (reachable_operateAll h round 0 os).goesOnTo (System.goesOnTo_settled _)
  | close timeout => exact reachable_close h timeout
  | advance millis => exact h.goesOnTo (System.goesOnTo_advanceTo s _)
  | drop => exact (h.run [.cancel]).goesOnTo (System.goesOnTo_settled _)

end Reachable

theorem reachable_step {s : Session} (h : s.system.Reachable) (step : SessionStep) :
    (s.step step).2.system.Reachable := by
  have hbefore := reachable_round h s.round
  unfold Session.step
  dsimp only
  split
  · exact reachable_make hbefore s.round _
  · exact reachable_make hbefore s.round _
  · exact hbefore

theorem reachable_play {s : Session} (h : s.system.Reachable) (steps : List SessionStep) :
    (s.play steps).2.system.Reachable := by
  induction steps generalizing s with
  | nil => exact h
  | cons step rest ih => exact ih (reachable_step h step)

/-- What holds after every run holds of the system of every session. -/
theorem holds_play {P : System → Prop} (h : ∀ happened, P (System.initial.run happened))
    (steps : List SessionStep) : P (fresh.play steps).2.system := by
  obtain ⟨happened, hrun⟩ := reachable_play (s := fresh) System.reachable_initial steps
  exact hrun ▸ h happened

end Session

end ServiceHost
