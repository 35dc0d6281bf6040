import ServiceHost.Proofs.Lifecycle

/-! # Courses through the lifecycle

There are five ways from the installation of a service to its removal. What a service is asked for,
over any sequence of signals, is one of them as far as it has come. -/

namespace ServiceHost

/-- The ways through the lifecycle. -/
inductive Course
  /-- Asked to stop before its start. -/
  | unstarted
  /-- Started, and stopped once its dependents are gone. -/
  | served
  /-- Asked to stop while it started, and stopped once it had. -/
  | outrun
  /-- Asked to stop while it started, and cut short. -/
  | interrupted
  /-- Its start failed. -/
  | failed
  deriving DecidableEq, Repr

/-- What a course asks for, one list for each move, until the service is removed. -/
def Course.moves : Course → List (List Effect)
  | .unstarted => [[.failStart .interrupted, .emitRemoved]]
  | .served =>
    [[.injectAndStart], [.completeStart], [.invokeStop false], [.releaseInjected, .emitRemoved]]
  | .outrun =>
    [[.injectAndStart], [.failStart .removedWhileStarting, .invokeStop false],
      [.releaseInjected, .emitRemoved]]
  | .interrupted =>
    [[.injectAndStart], [.failStart .interrupted, .invokeStop true],
      [.releaseInjected, .emitRemoved]]
  | .failed =>
    [[.injectAndStart], [.failStart .failed, .emitStopped], [.releaseInjected, .emitRemoved]]

/-- The first moves of a course; a removed service is told to end any number of times. -/
def Course.IsCut (course : Course) (effects : List Effect) : Prop :=
  ∃ k n, effects = ((course.moves ++ List.replicate k [Effect.terminate]).take n).flatten

/-- Whether an effect settles the promise made to the installer. -/
def Effect.settles : Effect → Bool
  | .completeStart | .failStart _ => true
  | _ => false

/-- What was asked for on the way to a state. -/
inductive Course.Leads : State → List Effect → Prop
  | waiting : Leads .waiting []
  | starting (asked : Bool) : Leads (.starting asked) [.injectAndStart]
  | started : Leads .started [.injectAndStart, .completeStart]
  | draining : Leads .draining [.injectAndStart, .completeStart]
  | stopping (course : Course) (h : course ≠ .unstarted) :
    Leads .stopping course.moves.dropLast.flatten
  | removed (course : Course) (k : Nat) :
    Leads .removed (course.moves.flatten ++ List.replicate k Effect.terminate)

namespace Course

variable {s next : State} {x : Signal} {interruptible : Bool} {l effects : List Effect}

/-- A move carries on a course. -/
theorem Leads.move (h : Leads s l) (hm : Moves interruptible s x next effects) :
    Leads next (l ++ effects) := by
  cases hm with
  | start => cases h; exact .starting false
  | abort _ => cases h; exact .removed .unstarted 0
  | complete => cases h; exact .started
  | late => cases h; exact .stopping .outrun (by decide)
  | fail asked => cases h; exact .stopping .failed (by decide)
  | cut asked _ _ => cases h; exact .stopping .interrupted (by decide)
  | note asked _ _ => cases h; exact .starting true
  | drain _ => cases h; exact .draining
  | release => cases h; exact .stopping .served (by decide)
  | vanish =>
      cases h with
      | stopping course h =>
          have hmoves : course.moves.dropLast.flatten ++ [.releaseInjected, .emitRemoved] =
              course.moves.flatten ++ List.replicate 0 Effect.terminate := by
            cases course <;> first | exact absurd rfl h | rfl
          rw [hmoves]
          exact .removed course 0
  | last =>
      cases h with
      | removed course k =>
          rw [List.append_assoc, ← List.replicate_succ']
          exact .removed course (k + 1)

theorem Leads.step (h : Leads s l) (x : Step) : Leads (s.next x) (l ++ s.effects x) := by
  unfold State.next State.effects
  split
  · exact h.move (transition_eq_some_iff.mp ‹_›)
  · rwa [List.append_nil]

/-- Any sequence of signals carries on a course. -/
theorem Leads.run (h : Leads s l) (steps : List Step) :
    Leads (s.run steps) (l ++ s.trace steps) := by
  induction steps generalizing s l with
  | nil => rwa [State.trace, List.append_nil]
  | cons x rest ih =>
      rw [State.trace, ← List.append_assoc]
      exact ih (h.step x)

theorem isCut_take (course : Course) (n : Nat) : course.IsCut (course.moves.take n).flatten :=
  ⟨0, n, by rw [List.replicate_zero, List.append_nil]⟩

/-- What was asked for is a course as far as it has come. -/
theorem Leads.isCut (h : Leads s l) : ∃ course : Course, course.IsCut l := by
  cases h with
  | waiting => exact ⟨.served, isCut_take .served 0⟩
  | starting asked => exact ⟨.served, isCut_take .served 1⟩
  | started => exact ⟨.served, isCut_take .served 2⟩
  | draining => exact ⟨.served, isCut_take .served 2⟩
  | stopping course _ =>
      refine ⟨course, ?_⟩
      rw [List.dropLast_eq_take]
      exact isCut_take course _
  | removed course k =>
      refine ⟨course, k, course.moves.length + k, ?_⟩
      rw [List.take_of_length_le (by simp)]
      simp

/-- What was asked for on the way to a state, counted. -/
theorem Leads.counts (h : Leads s l) : l.count .injectAndStart ≤ 1 ∧
    l.countP Effect.isStop ≤ 1 ∧ l.countP Effect.settles ≤ 1 ∧
      (s = .removed → l.countP Effect.settles = 1) := by
  cases h with
  | waiting | starting asked | started | draining => exact ⟨by decide, by decide, by decide, nofun⟩
  | stopping course _ => cases course <;> exact ⟨by decide, by decide, by decide, nofun⟩
  | removed course k =>
      cases course <;>
        simp [moves, List.count_replicate, List.countP_replicate, Effect.isStop, Effect.settles,
          List.countP_cons]

/-! ## Signals for each course -/

/-- Signals that take a service through a course, those for each move together. -/
def signals : Course → List (List Step)
  | .unstarted => [[(.stopping, false)]]
  | .served =>
    [[(.dependenciesAvailable, false)], [(.started, false)],
      [(.stopping, false), (.dependentsStopped, false)], [(.stopped, false)]]
  | .outrun =>
    [[(.dependenciesAvailable, false)], [(.stopping, false), (.started, false)],
      [(.stopped, false)]]
  | .interrupted =>
    [[(.dependenciesAvailable, false)], [(.stopping, true)], [(.stopped, false)]]
  | .failed => [[(.dependenciesAvailable, false)], [(.startFailed, false)], [(.stopped, false)]]

end Course

theorem State.trace_append (s : State) (a b : List Step) :
    s.trace (a ++ b) = s.trace a ++ (s.run a).trace b := by
  induction a generalizing s with
  | nil => rfl
  | cons x a ih =>
      rw [List.cons_append, trace, trace, ih, List.append_assoc]
      rfl

theorem State.trace_removed (k : Nat) : State.removed.trace
    (List.replicate k (.removed, false)) = List.replicate k Effect.terminate := by
  induction k with
  | zero => rfl
  | succ k ih =>
      rw [List.replicate_succ, List.replicate_succ, trace]
      exact congrArg (Effect.terminate :: ·) ih

namespace Course

theorem trace_signals (course : Course) (n : Nat) :
    State.waiting.trace (course.signals.take n).flatten = (course.moves.take n).flatten := by
  have hlen : course.signals.length = course.moves.length := by cases course <;> rfl
  rcases Nat.lt_or_ge n 5 with hn | hn
  · revert n
    cases course <;> decide
  · have hmoves : course.moves.length ≤ 4 := by cases course <;> decide
    rw [List.take_of_length_le (by omega), List.take_of_length_le (by omega)]
    cases course <;> rfl

/-- Every course can be taken, as far as one likes. -/
theorem IsCut.exists_steps {course : Course} {effects : List Effect} (h : course.IsCut effects) :
    ∃ steps, State.waiting.trace steps = effects := by
  obtain ⟨k, n, rfl⟩ := h
  rw [List.take_append, List.flatten_append, List.take_replicate]
  rcases Nat.lt_or_ge n course.moves.length with hn | hn
  · refine ⟨_, (trace_signals course n).trans ?_⟩
    rw [Nat.sub_eq_zero_of_le (Nat.le_of_lt hn)]
    simp
  · have hrun : State.waiting.run course.signals.flatten = .removed := by cases course <;> rfl
    refine ⟨course.signals.flatten ++ List.replicate (min (n - course.moves.length) k)
      (.removed, false), ?_⟩
    rw [State.trace_append, hrun, State.trace_removed, List.take_of_length_le hn]
    congr 1
    · cases course <;> rfl
    · simp

end Course

theorem State.phase_le_next (s : State) (x : Step) : s.phase ≤ (s.next x).phase := by
  unfold State.next
  split
  · exact (transition_eq_some_iff.mp ‹_›).phase_le
  · exact Nat.le_refl _

theorem State.phase_le_run (s : State) (steps : List Step) : s.phase ≤ (s.run steps).phase := by
  induction steps generalizing s with
  | nil => exact Nat.le_refl _
  | cons x rest ih => exact Nat.le_trans (s.phase_le_next x) (ih (s.next x))

/-- What holds of every sequence of signals from the installation on. -/
structure Lifecycle : Prop where
  /-- The service never goes back. -/
  forward (steps more : List Step) :
    (State.waiting.run steps).phase ≤ (State.waiting.run (steps ++ more)).phase
  /-- What is asked for is a course as far as it has come, and every such course is taken. -/
  course (effects : List Effect) : (∃ steps, State.waiting.trace steps = effects) ↔
    ∃ course : Course, course.IsCut effects
  /-- The service is started once at most. -/
  start (steps : List Step) : (State.waiting.trace steps).count .injectAndStart ≤ 1
  /-- The service is stopped once at most. -/
  stop (steps : List Step) : (State.waiting.trace steps).countP Effect.isStop ≤ 1
  /-- The promise to the installer is settled once at most, and is so once the service is
  removed. -/
  settle (steps : List Step) : (State.waiting.trace steps).countP Effect.settles ≤ 1 ∧
    (State.waiting.run steps = .removed → (State.waiting.trace steps).countP Effect.settles = 1)

/-- A service goes through its life in one of five ways. -/
theorem lifecycle_courses : Lifecycle := by
  have hleads (steps : List Step) :
      Course.Leads (State.waiting.run steps) (State.waiting.trace steps) :=
    Course.Leads.waiting.run steps
  refine ⟨fun steps more => ?_, fun effects => ⟨?_, ?_⟩, fun steps => (hleads steps).counts.1,
    fun steps => (hleads steps).counts.2.1, fun steps => (hleads steps).counts.2.2⟩
  · rw [State.run, State.run, List.foldl_append]
    exact State.phase_le_run _ more
  · rintro ⟨steps, rfl⟩
    exact (hleads steps).isCut
  · rintro ⟨course, h⟩
    exact h.exists_steps

end ServiceHost
