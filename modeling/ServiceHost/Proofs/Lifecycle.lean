import Mathlib.Tactic.Common
import ServiceHost.Lifecycle

/-! # Moves through the lifecycle

The signals that mean something in each state, with what they lead to. -/

namespace ServiceHost

theorem State.phase_eq_zero {s : State} : s.phase = 0 ↔ s = .waiting := by
  cases s <;> simp [phase]

theorem State.phase_eq_five {s : State} : s.phase = 5 ↔ s = .removed := by
  cases s <;> simp [phase]

theorem State.phase_le_five (s : State) : s.phase ≤ 5 := by
  cases s <;> simp [phase]

/-- Only while it starts, the place of a state leaves something open. -/
theorem State.eq_of_phase_eq {s s' : State} (h : s.phase = s'.phase) (hs : s.phase ≠ 1) :
    s = s' := by
  cases s <;> cases s' <;> simp_all [phase]

/-- The states in which no callback is under way. -/
theorem State.idle_cases {s : State} (hstart : s.phase ≠ 1) (hstop : s.phase ≠ 4)
    (hr : s.phase ≠ 5) : s = .waiting ∨ s = .started ∨ s = .draining := by
  cases s <;> simp_all [phase]

/-- A signal that makes a service stop. -/
def Signal.Stops (x : Signal) : Prop := x = .stopping ∨ x = .dependenciesUnavailable

instance (x : Signal) : Decidable x.Stops := inferInstanceAs (Decidable (_ ∨ _))

/-- Whether an effect is a call of `stop`. -/
def Effect.isStop : Effect → Bool
  | .invokeStop _ => true
  | _ => false

/-- The move a signal makes, the state it leads to, and the effects it asks for. -/
inductive Moves (interruptible : Bool) : State → Signal → State → List Effect → Prop
  | start : Moves interruptible .waiting .dependenciesAvailable (.starting false) [.injectAndStart]
  | abort {x : Signal} (hx : x.Stops) :
    Moves interruptible .waiting x .removed [.failStart .interrupted, .emitRemoved]
  | complete : Moves interruptible (.starting false) .started .started [.completeStart]
  | late : Moves interruptible (.starting true) .started .stopping
    [.failStart .removedWhileStarting, .invokeStop false]
  | fail (asked : Bool) : Moves interruptible (.starting asked) .startFailed .stopping
    [.failStart .failed, .emitStopped]
  | cut (asked : Bool) {x : Signal} (hx : x.Stops ∨ x = .dependentsStopped)
    (hi : interruptible = true) :
    Moves interruptible (.starting asked) x .stopping [.failStart .interrupted, .invokeStop true]
  | note (asked : Bool) {x : Signal} (hx : x.Stops ∨ x = .dependentsStopped)
    (hi : interruptible = false) : Moves interruptible (.starting asked) x (.starting true) []
  | drain {x : Signal} (hx : x.Stops) : Moves interruptible .started x .draining []
  | release : Moves interruptible .draining .dependentsStopped .stopping [.invokeStop false]
  | vanish : Moves interruptible .stopping .stopped .removed [.releaseInjected, .emitRemoved]
  | last : Moves interruptible .removed .removed .removed [.terminate]

/-- A signal means something exactly if it makes a move. -/
theorem transition_eq_some_iff {s next : State} {x : Signal} {interruptible : Bool}
    {effects : List Effect} : transition s x interruptible = some (next, effects) ↔
      Moves interruptible s x next effects := by
  constructor
  · intro h
    cases s with
    | waiting =>
        cases x <;> cases h
        · exact .start
        · exact .abort (.inr rfl)
        · exact .abort (.inl rfl)
    | starting asked =>
        cases x with
        | started =>
            cases asked <;> cases h
            · exact .complete
            · exact .late
        | startFailed => cases asked <;> cases h <;> exact .fail _
        | dependenciesUnavailable =>
            cases asked <;> cases interruptible <;> cases h <;>
              first | exact .note _ (.inl (.inr rfl)) rfl | exact .cut _ (.inl (.inr rfl)) rfl
        | dependentsStopped =>
            cases asked <;> cases interruptible <;> cases h <;>
              first | exact .note _ (.inr rfl) rfl | exact .cut _ (.inr rfl) rfl
        | stopping =>
            cases asked <;> cases interruptible <;> cases h <;>
              first | exact .note _ (.inl (.inl rfl)) rfl | exact .cut _ (.inl (.inl rfl)) rfl
        | dependenciesAvailable | stopped | removed => cases asked <;> cases h
    | started =>
        cases x <;> cases h
        · exact .drain (.inr rfl)
        · exact .drain (.inl rfl)
    | draining => cases x <;> cases h; exact .release
    | stopping => cases x <;> cases h; exact .vanish
    | removed => cases x <;> cases h; exact .last
  · intro h
    cases h with
    | abort hx | drain hx => rcases hx with rfl | rfl <;> rfl
    | cut asked hx hi | note asked hx hi =>
        subst hi
        cases asked <;> rcases hx with (rfl | rfl) | rfl <;> rfl
    | fail asked => cases asked <;> rfl
    | start | complete | late | release | vanish | last => rfl

namespace Moves

variable {interruptible : Bool} {s next : State} {x : Signal} {effects : List Effect}

/-- A move leads on, unless it only takes note of a signal or is the last. -/
theorem phase_lt_or (h : Moves interruptible s x next effects) : s.phase < next.phase ∨
    (s.phase = next.phase ∧ (effects = [] ∨ effects = [.terminate])) := by
  cases h with
  | note asked => exact .inr ⟨rfl, .inl rfl⟩
  | last => exact .inr ⟨rfl, .inr rfl⟩
  | _ => exact .inl (by simp [State.phase])

theorem phase_le (h : Moves interruptible s x next effects) : s.phase ≤ next.phase := by
  rcases h.phase_lt_or with h | ⟨h, _⟩ <;> omega

theorem ne_waiting (h : Moves interruptible s x next effects) : next ≠ .waiting := by
  cases h <;> simp

theorem of_started (h : Moves interruptible s x .started effects) : effects = [.completeStart] := by
  cases h
  rfl

/-- Only a started service begins to wait for its dependents. -/
theorem of_draining (h : Moves interruptible s x .draining effects) : s = .started ∧ x.Stops := by
  cases h with
  | drain hx => exact ⟨rfl, hx⟩

/-- A service that waits for its dependents goes on when they are gone. -/
theorem draining (h : Moves interruptible .draining x next effects) : x = .dependentsStopped := by
  cases h
  rfl

theorem started (h : Moves interruptible .started x next effects) : next = .draining := by
  cases h
  rfl

theorem waiting (h : Moves interruptible .waiting x next effects) (hne : next ≠ .removed) :
    x = .dependenciesAvailable := by
  cases h with
  | start => rfl
  | abort _ => exact absurd rfl hne

theorem removed (h : Moves interruptible .removed x next effects) : next = .removed := by
  cases h
  rfl

/-- A service that stops is under way to be removed. -/
theorem of_invokeStop (h : Moves interruptible s x next effects) {interrupted : Bool}
    (he : .invokeStop interrupted ∈ effects) : next = .stopping := by
  cases h <;> simp at he <;> rfl

/-- A service that was not asked to stop after a move was not asked before either, nor by it. -/
theorem unasked (h : Moves interruptible s x next effects) (hphase : next.phase ≤ 2)
    (hne : next ≠ .starting true) : ¬x.Stops ∧ s.phase ≤ 2 ∧ s ≠ .starting true := by
  cases h with
  | start | complete => decide
  | note => exact absurd rfl hne
  | _ => simp [State.phase] at hphase

end Moves

end ServiceHost
