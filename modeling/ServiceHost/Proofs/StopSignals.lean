import ServiceHost.Proofs.Courses

/-! # Only the first signal to stop counts

A service may be told to stop any number of times, once by each dependency that goes away and once
by each request. What it does about that is settled by the first of these signals. -/

namespace ServiceHost

/-- Signals as they come to a service whose start may, or may not, be cut short all along. -/
def steps (interruptible : Bool) (signals : List Signal) : List Step :=
  signals.map (·, interruptible)

/-- The state signals lead to, and all they ask for on the way. -/
def State.follow (s : State) (interruptible : Bool) (signals : List Signal) : State × List Effect :=
  (s.run (steps interruptible signals), s.trace (steps interruptible signals))

/-- The signals that are none to stop. -/
def withoutStops (signals : List Signal) : List Signal := signals.filter (¬·.Stops)

/-- Signals without those to stop, but for the first of these. -/
def firstStopOnly : List Signal → List Signal
  | [] => []
  | x :: rest => if x.Stops then x :: withoutStops rest else x :: firstStopOnly rest

/-- One signal may stand for another: they are the same, or both of them are to stop. -/
def Signal.SameUse (x y : Signal) : Prop := x = y ∨ (x.Stops ∧ y.Stops)

namespace State

variable {s : State} {interruptible : Bool} {x y : Signal} {l l' : List Signal}

@[simp] theorem follow_nil (s : State) (interruptible : Bool) :
    s.follow interruptible [] = (s, []) := rfl

theorem follow_cons (s : State) (interruptible : Bool) (x : Signal) (l : List Signal) :
    s.follow interruptible (x :: l) =
      (((s.next (x, interruptible)).follow interruptible l).1,
        s.effects (x, interruptible) ++ ((s.next (x, interruptible)).follow interruptible l).2) :=
  rfl

theorem follow_append (s : State) (interruptible : Bool) (l l' : List Signal) :
    s.follow interruptible (l ++ l') =
      (((s.follow interruptible l).1.follow interruptible l').1,
        (s.follow interruptible l).2 ++
          ((s.follow interruptible l).1.follow interruptible l').2) := by
  simp only [follow, steps, List.map_append, run, List.foldl_append, trace_append]

/-- Signals to stop make the same move, whichever of the two they are. -/
theorem transition_stops (s : State) (interruptible : Bool) (hx : x.Stops) (hy : y.Stops) :
    transition s x interruptible = transition s y interruptible := by
  rcases hx with rfl | rfl <;> rcases hy with rfl | rfl <;> cases s with
  | starting asked => cases asked <;> rfl
  | _ => rfl

theorem follow_congr (hx : transition s x interruptible = transition s y interruptible)
    (hl : ∀ s : State, s.follow interruptible l = s.follow interruptible l') :
    s.follow interruptible (x :: l) = s.follow interruptible (y :: l') := by
  have hnext : s.next (x, interruptible) = s.next (y, interruptible) := by
    simp only [next, hx]
  have heffects : s.effects (x, interruptible) = s.effects (y, interruptible) := by
    simp only [effects, hx]
  rw [follow_cons, follow_cons, hnext, heffects, hl]

/-! ## Services that were told to stop -/

/-- A service has noted that it is to stop: it starts and will stop after that, or it is on its way
out. -/
def Told (interruptible : Bool) (s : State) : Prop :=
  (s = .starting true ∧ interruptible = false) ∨ 3 ≤ s.phase

/-- Whatever a service was doing, a signal to stop is noted. -/
theorem told_next (s : State) (hx : x.Stops) : (s.next (x, interruptible)).Told interruptible := by
  rcases hx with rfl | rfl <;> cases s with
  | starting asked => cases asked <;> cases interruptible <;> simp [next, transition, Told, phase]
  | _ => simp [next, transition, Told, phase]

/-- Whatever it hears afterwards, a service does not forget. -/
theorem Told.next (h : s.Told interruptible) (x : Signal) :
    (s.next (x, interruptible)).Told interruptible := by
  rcases h with ⟨rfl, rfl⟩ | h
  · cases x <;> simp [State.next, transition, Told, phase]
  · exact .inr (Nat.le_trans h (phase_le_next s _))

/-- A service that was told to stop hears nothing new when it is told again. -/
theorem Told.again (h : s.Told interruptible) (hx : x.Stops) :
    s.next (x, interruptible) = s ∧ s.effects (x, interruptible) = [] := by
  rcases h with ⟨rfl, rfl⟩ | h
  · rcases hx with rfl | rfl <;> exact ⟨rfl, rfl⟩
  · rcases hx with rfl | rfl <;> cases s <;>
      first | exact ⟨rfl, rfl⟩ | exact absurd h (by decide) | exact absurd h (by simp [phase])

theorem Told.follow_withoutStops (h : s.Told interruptible) (l : List Signal) :
    s.follow interruptible (withoutStops l) = s.follow interruptible l := by
  induction l generalizing s with
  | nil => rfl
  | cons x l ih =>
      by_cases hx : x.Stops
      · obtain ⟨hnext, heffects⟩ := h.again hx
        have hskip : withoutStops (x :: l) = withoutStops l := by simp [withoutStops, hx]
        rw [hskip, follow_cons, hnext, heffects, List.nil_append, ih h]
      · have hkeep : withoutStops (x :: l) = x :: withoutStops l := by simp [withoutStops, hx]
        rw [hkeep, follow_cons, follow_cons, ih (h.next x)]

/-- After a signal to stop, it does not matter where there are others. -/
theorem told_follow (s : State) (h : ∃ x ∈ l, x.Stops) :
    (s.follow interruptible l).1.Told interruptible := by
  obtain ⟨x, hmem, hx⟩ := h
  obtain ⟨before, after, rfl⟩ := List.append_of_mem hmem
  rw [follow_append, follow_cons]
  dsimp only
  have htold : ((s.follow interruptible before).1.next (x, interruptible)).Told interruptible :=
    (s.follow interruptible before).1.told_next hx
  generalize (s.follow interruptible before).1.next (x, interruptible) = s' at htold
  clear hmem
  induction after generalizing s' with
  | nil => exact htold
  | cons y after ih => exact ih _ (htold.next y)

end State

/-- What a service does about signals to stop, as long as its start may be cut short all along or
never. -/
structure HeedsOneStop (interruptible : Bool) (s : State) (signals : List Signal) : Prop where
  /-- Of the signals to stop, all but the first may be left out. -/
  left : s.follow interruptible (firstStopOnly signals) = s.follow interruptible signals
  /-- Each of them may be exchanged for one of the other kind. -/
  exchanged {others : List Signal} (h : List.Forall₂ Signal.SameUse signals others) :
    s.follow interruptible others = s.follow interruptible signals
  /-- There may be any others of them after the first. -/
  added {before after more : List Signal} (hs : signals = before ++ after)
    (hstop : ∃ x ∈ before, x.Stops) (hsame : withoutStops more = withoutStops after) :
    s.follow interruptible (before ++ more) = s.follow interruptible signals

/-- Only the first signal to stop counts, wherever a service stands. -/
theorem heedsOneStop (interruptible : Bool) (s : State) (signals : List Signal) :
    HeedsOneStop interruptible s signals := by
  refine ⟨?_, fun {others} h => ?_, ?_⟩
  · induction signals generalizing s with
    | nil => rfl
    | cons x l ih =>
        rw [firstStopOnly]
        split
        · next hx =>
            rw [State.follow_cons, State.follow_cons, (s.told_next hx).follow_withoutStops]
        · rw [State.follow_cons, State.follow_cons, ih]
  · induction h generalizing s with
    | nil => rfl
    | cons hxy _ ih =>
        refine State.follow_congr ?_ ih
        rcases hxy with rfl | ⟨hx, hy⟩
        · rfl
        · exact s.transition_stops interruptible hy hx
  · rintro before after more rfl hstop hsame
    have htold : (s.follow interruptible before).1.Told interruptible := s.told_follow hstop
    rw [State.follow_append, State.follow_append, ← htold.follow_withoutStops more, hsame,
      htold.follow_withoutStops after]

/-- A service is told to stop while it starts, and a request and a dependency tell it again. -/
theorem heedsOneStop_toldTwice :
    (∃ x ∈ [Signal.dependenciesAvailable, .dependenciesUnavailable], x.Stops) ∧
    withoutStops [.stopping, .started, .dependenciesUnavailable, .stopped] =
      withoutStops [.started, .stopped] ∧
    State.waiting.follow false [.dependenciesAvailable, .dependenciesUnavailable, .stopping,
        .started, .dependenciesUnavailable, .stopped] =
      (.removed, [.injectAndStart, .failStart .removedWhileStarting, .invokeStop false,
        .releaseInjected, .emitRemoved]) :=
  have hstop : ∃ x ∈ [Signal.dependenciesAvailable, .dependenciesUnavailable], x.Stops :=
    ⟨.dependenciesUnavailable, by decide, by decide⟩
  have hsame : withoutStops [.stopping, .started, .dependenciesUnavailable, .stopped] =
      withoutStops [.started, .stopped] := by decide
  ⟨hstop, hsame, (heedsOneStop false .waiting [.dependenciesAvailable, .dependenciesUnavailable,
    .started, .stopped]).added rfl hstop hsame⟩

end ServiceHost
