import ServiceHost.Operation
import ServiceHost.Schedule
/-!
Runs: everything that can happen to a system, in any order. Actors move as they please, requests
come in at any time, and a timer that is set may go off whenever time has passed that far. What the
schedule makes of a system is one of its runs.
-/

namespace ServiceHost.System

/-- One thing that happens to a system: an actor makes a move or is passed over, a timer goes off,
time passes, a request comes in. The last three are what closing by force consists of. -/
inductive Stimulus
  | move (m : Move)
  | passOver
  | elapse (t : Timer)
  | wait (clock round : Nat)
  | request (origin : Origin) (operation : Operation)
  | cancel
  | log (level : Level) (message : String)
  | giveUp

def Stimulus.isInternal : Stimulus → Bool
  | .move _ | .passOver | .elapse _ | .wait .. => true
  | .request .. | .cancel | .log .. | .giveUp => false

def apply (s : System) : Stimulus → System
  | .move m => s.perform m
  | .passOver => { s with ready := s.ready.tail }
  | .elapse t => s.elapse t
  | .wait clock round =>
    { s with world := { s.world with clock := max s.world.clock clock, round } }
  | .request origin o => (s.operate origin o).2
  | .cancel => s.cancel
  | .log level message => s.log level message
  | .giveUp => s.giveUp

def run (s : System) (happened : List Stimulus) : System := happened.foldl apply s

/-- A system is reachable if something that can happen leads to it from the beginning. -/
def Reachable (s : System) : Prop := ∃ happened, s = initial.run happened

/-- A system goes on to another by itself, without a request from outside. -/
def GoesOnTo (s t : System) : Prop :=
  ∃ happened : List Stimulus, (∀ x ∈ happened, x.isInternal = true) ∧ t = s.run happened

theorem run_append (s : System) (a b : List Stimulus) : s.run (a ++ b) = (s.run a).run b :=
  List.foldl_append

theorem reachable_initial : initial.Reachable := ⟨[], rfl⟩

theorem Reachable.run {s : System} (h : s.Reachable) (happened : List Stimulus) :
    (s.run happened).Reachable := by
  obtain ⟨past, rfl⟩ := h
  exact ⟨past ++ happened, (run_append initial past happened).symm⟩

theorem Reachable.forceClose {s : System} (h : s.Reachable) (rest : Except Error Answer) :
    (s.forceClose rest).Reachable :=
  h.run [.log .debug (overdueText rest), .cancel, .giveUp]

theorem Reachable.goesOnTo {s t : System} (h : s.Reachable) (hst : s.GoesOnTo t) :
    t.Reachable := by
  obtain ⟨happened, -, rfl⟩ := hst
  exact h.run happened

theorem GoesOnTo.refl (s : System) : s.GoesOnTo s := ⟨[], by simp, rfl⟩

theorem GoesOnTo.trans {s t u : System} (hst : s.GoesOnTo t) (htu : t.GoesOnTo u) :
    s.GoesOnTo u := by
  obtain ⟨a, ha, rfl⟩ := hst
  obtain ⟨b, hb, rfl⟩ := htu
  refine ⟨a ++ b, fun x hx => ?_, (run_append s a b).symm⟩
  rcases List.mem_append.1 hx with h | h
  · exact ha x h
  · exact hb x h

theorem goesOnTo_apply (s : System) {x : Stimulus} (hx : x.isInternal = true) :
    s.GoesOnTo (s.apply x) :=
  ⟨[x], by simpa using hx, rfl⟩

theorem goesOnTo_settleFor (n : Nat) (s : System) : s.GoesOnTo (settleFor n s) := by
  induction n generalizing s with
  | zero => exact .refl s
  | succ n ih =>
    rw [settleFor]
    split
    · exact .refl s
    · next a rest hready =>
      split
      · have hpass : s.apply .passOver = { s with ready := rest } := by simp [apply, hready]
        exact (hpass ▸ goesOnTo_apply s (x := .passOver) rfl).trans (ih _)
      · next m _ => exact (goesOnTo_apply s (x := .move m) rfl).trans (ih _)

theorem goesOnTo_settled (s : System) : s.GoesOnTo s.settled := goesOnTo_settleFor _ s

theorem goesOnTo_elapse (due : List Timer) (s : System) : s.GoesOnTo (due.foldl elapse s) := by
  induction due generalizing s with
  | nil => exact .refl s
  | cons t rest ih => exact (goesOnTo_apply s (x := .elapse t) rfl).trans (ih _)

theorem goesOnTo_fire (s : System) (next : Timer) : s.GoesOnTo (s.fire next) :=
  (goesOnTo_elapse _ s).trans (goesOnTo_settled _)

theorem goesOnTo_runUntil (limit : Nat) (done : System → Bool) (n : Nat) (s : System) :
    s.GoesOnTo (runUntil limit done n s) := by
  induction n generalizing s with
  | zero => exact .refl s
  | succ n ih =>
    rw [runUntil]
    split
    · exact .refl s
    · split
      · exact .refl s
      · next t _ => exact (goesOnTo_fire s t).trans (ih _)

theorem goesOnTo_advanceTo (s : System) (time : Nat) : s.GoesOnTo (s.advanceTo time) :=
  (goesOnTo_runUntil _ _ _ s).trans (goesOnTo_apply _ (x := .wait time s.world.round) rfl)

end ServiceHost.System
