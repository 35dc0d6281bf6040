import ServiceHost.Proofs.System.Bookkeeping
import ServiceHost.Proofs.System.Settlement
import ServiceHost.Proofs.System.Termination

/-! # One outcome for each callback

Main result: unless everything is told to stop, whatever the callbacks of a service do, a callback
that is invoked comes back once at most, and its controller is told one outcome, which its script
and the work it asked for lead to. A start that was cut short may be told nothing of; if something
is told of it, it has come too late to mean anything. -/

namespace ServiceHost

/-- What can be seen of a callback, by the work it asks to be complete after. -/
inductive Phase.Unfolds (phase : Phase) (asked : Option (Completion × Bool)) : List Milestone → Prop
  | idle : Unfolds phase asked []
  /-- Its controller told itself that it failed instead of invoking it. -/
  | spared (failure : Failure) : Unfolds phase asked [.told (phase.event (.error failure))]
  | running : Unfolds phase asked [.invoked]
  /-- It came back, and its completion is pending. -/
  | pending (h : asked.isSome = true) : Unfolds phase asked [.invoked, .returned (.ok ())]
  | told (returned : Except Failure Unit) : Unfolds phase asked [.invoked, .returned returned,
      .told (phase.event (phase.verdict asked returned))]

namespace System

/-- What becomes of a callback of a controller in a run. -/
structure OneOutcome (happened : List Stimulus) (i : Nat) (c : Controller) (phase : Phase) :
    Prop where
  /-- It is invoked, comes back and is told of in this order, each of it once at most. -/
  unfolds : phase.Unfolds (c.asks? phase) (initial.course happened i phase)
  /-- A start is told to have failed, unless it came back well and the work it asked for first, if
  it asked for any, was done. -/
  started : phase = .start → ∀ {returned e},
    initial.course happened i phase = [.invoked, .returned returned, .told e] →
    (e = .started ↔ returned = .ok () ∧
      ∀ work interruptible, c.asks? phase = some (work, interruptible) → work.ending = .done) ∧
    (e = .started ∨ ∃ failure, e = .startFailed failure)
  /-- A stop is always told to be over. -/
  stopped : phase = .stop → ∀ {e}, .told e ∈ initial.course happened i phase → e = .stopped
  /-- Only the work asked for first is ever done, once, and only if the callback came back well. -/
  works : ∀ {k : Nat} {task : Task}, (initial.run happened).tasks[k]? = some task →
    task.owner = i → task.phase = phase →
    .returned (.ok ()) ∈ initial.course happened i phase ∧
    (∃ interruptible, c.asks? phase = some (task.work, interruptible)) ∧
    ∀ {k' : Nat} {task' : Task}, (initial.run happened).tasks[k']? = some task' →
      task'.owner = i → task'.phase = phase → k = k'
  /-- Whether a start whose completion is pending may be cut short was asked for with the work. -/
  interruptible : phase = .start → ¬StartCut happened i phase →
    initial.course happened i phase = [.invoked, .returned (.ok ())] →
    ∃ work, c.asks? phase = some (work, c.interruptible)
  /-- When nobody can act any more and no timer is set, each callback that was invoked is told of,
  unless it waits for an answer nobody has given. -/
  exhausted : (initial.run happened).Exhausted → ¬StartCut happened i phase →
    .invoked ∈ initial.course happened i phase →
    (∃ returned e, initial.course happened i phase = [.invoked, .returned returned, .told e]) ∨
    (initial.course happened i phase = [.invoked] ∧ ∃ callback k awaited,
      c.callback = some callback ∧ callback.phase = phase ∧ callback.wait = .answer k awaited ∧
      (initial.run happened).world.status k = some none)
  /-- Once a start was cut short, no outcome of it means anything. -/
  late : StartCut happened i phase → ∀ x, phase.Outcome x → ¬c.Heeds x

end System

/-- What a start is told to have come to. -/
theorem Phase.event_start_eq_started {outcome : Except Failure Unit} :
    Phase.start.event outcome = .started ↔ outcome = .ok () := by
  cases outcome <;> simp [event, Event.ofStart]

theorem Ending.outcome_eq_ok {phase : Phase} {ending : Ending} :
    ending.outcome phase = .ok () ↔ ending = .done := by
  cases ending <;> simp [outcome]

theorem Phase.verdict_eq_ok {phase : Phase} {asked : Option (Completion × Bool)}
    {returned : Except Failure Unit} : phase.verdict asked returned = .ok () ↔ returned = .ok () ∧
      ∀ work interruptible, asked = some (work, interruptible) → work.ending = .done := by
  cases returned with
  | error failure => simp [verdict]
  | ok _ =>
      cases asked with
      | none => simp [verdict]
      | some left =>
          simp only [verdict, Option.elim_some, Ending.outcome_eq_ok, true_and]
          refine ⟨fun h work interruptible he => ?_, fun h => h left.1 left.2 rfl⟩
          rw [Option.some.inj he] at h
          exact h

theorem CallbackStage.unfolds {tasks : List Task} {cut : Prop} {i : Nat} {phase : Phase}
    {c : Controller} {course : List Milestone} (h : CallbackStage tasks cut i phase c course) :
    phase.Unfolds (c.asks? phase) course := by
  cases h with
  | idle => exact .idle
  | spared failure => exact .spared failure
  | running => exact .running
  | pending _ _ _ _ _ _ _ _ hasks => exact .pending (by rw [hasks]; rfl)
  | calledOff hasks => exact .pending hasks
  | told returned => exact .told returned

/-- Of a start that came back it is told whether it, and the work it asked for, went well. -/
theorem Phase.Unfolds.start_told {asked : Option (Completion × Bool)}
    {returned : Except Failure Unit} {e : Event}
    (h : Phase.start.Unfolds asked [.invoked, .returned returned, .told e]) :
    (e = .started ↔ returned = .ok () ∧
      ∀ work interruptible, asked = some (work, interruptible) → work.ending = .done) ∧
    (e = .started ∨ ∃ failure, e = .startFailed failure) := by
  cases h with
  | told =>
      rw [Phase.event_start_eq_started, Phase.verdict_eq_ok]
      refine ⟨Iff.rfl, ?_⟩
      rw [← Phase.verdict_eq_ok]
      cases Phase.verdict .start asked returned with
      | ok => exact .inl rfl
      | error failure => exact .inr ⟨failure, rfl⟩

theorem Phase.Unfolds.stop_told {asked : Option (Completion × Bool)} {course : List Milestone}
    (h : Phase.stop.Unfolds asked course) {e : Event} (he : .told e ∈ course) : e = .stopped := by
  cases h <;> simp at he <;> exact he

/-- Unless a start was cut short, its controller remembers what it asked for. -/
theorem CallbackStage.start_asks {tasks : List Task} {cut : Prop} {i : Nat} {c : Controller}
    (h : CallbackStage tasks cut i .start c [.invoked, .returned (.ok ())]) (hcut : ¬cut) :
    ∃ work, c.asks? .start = some (work, c.interruptible) := by
  cases h with
  | pending k task interruptible _ _ _ _ _ hasks hwanted hunwanted =>
      have hun : task.unwanted = false := by
        rw [← Bool.not_eq_true]
        exact fun hun => hcut (hunwanted hun)
      exact ⟨task.work, by rw [hasks, (hwanted hun).2.2 rfl]⟩
  | calledOff _ h => exact absurd h hcut

namespace System

variable {happened : List Stimulus} {i : Nat} {c : Controller} {phase : Phase}

/-- After a start was cut short its service is on its way out. -/
theorem StartCut.leaving (h : StartCut happened i phase) (hx : ∀ x ∈ happened, x ≠ .cancel)
    (hc : (initial.run happened).controllers[i]? = some c) : 4 ≤ c.state.phase := by
  by_contra hphase
  have hnone := ((hasRun hx).ran hc).unstopped (Nat.lt_of_not_le hphase)
  rw [List.countP_eq_zero] at hnone
  exact hnone _ h.2 rfl

theorem not_heeds_of_leaving (h : 4 ≤ c.state.phase) {x : Signal} (hx : Phase.start.Outcome x) :
    ¬c.Heeds x := by
  rintro ⟨next, effects, hm⟩
  generalize c.state = state at h hm
  rcases hx with rfl | rfl <;> cases hm <;> simp [State.phase] at h

/-- Where nobody can act any more, a callback that was invoked is told of or waits in vain. -/
theorem exhausted_stage {course : List Milestone} {cut : Prop}
    (hstage : CallbackStage (initial.run happened).tasks cut i phase c course) (hcut : ¬cut)
    (hc : (initial.run happened).controllers[i]? = some c)
    (hexhausted : (initial.run happened).Exhausted) (hinvoked : .invoked ∈ course) :
    (∃ returned e, course = [.invoked, .returned returned, .told e]) ∨
    (course = [.invoked] ∧ ∃ callback k awaited, c.callback = some callback ∧
      callback.phase = phase ∧ callback.wait = .answer k awaited ∧
      (initial.run happened).world.status k = some none) := by
  have hspent := hexhausted.spent (wellFormed_run happened) (waitsBacked_run happened)
    (dismissed_run happened)
  cases hstage with
  | idle | spared => simp at hinvoked
  | running _ hrunning =>
      obtain ⟨callback, hcallback, -⟩ := Option.map_eq_some_iff.mp hrunning
      obtain ⟨hcallback, hphase⟩ := Option.filter_eq_some_iff.mp hcallback
      obtain ⟨k, awaited, hwait, hstatus⟩ :=
        hspent.callbacks c (List.mem_of_getElem? hc) callback hcallback
      exact .inr ⟨rfl, callback, k, awaited, hcallback, by simpa using hphase, hwait, hstatus⟩
  | pending k task _ _ _ _ htask hwatched =>
      have hover := hspent.completions task (List.mem_of_getElem? (taskOf?_eq_some.mp htask).1)
      rw [(Task.isOver_iff.mp hover).1] at hwatched
      cases hwatched
  | calledOff _ h => exact absurd h hcut
  | told returned => exact .inl ⟨returned, _, rfl⟩

/-- Every callback of every controller has one outcome. -/
theorem oneOutcome_run (hx : ∀ x ∈ happened, x ≠ .cancel)
    (hc : (initial.run happened).controllers[i]? = some c) (phase : Phase) :
    OneOutcome happened i c phase := by
  have haccount := (allAccounted_run hx).known hc phase
  have hunfolds := haccount.stage.unfolds
  refine ⟨hunfolds, ?_, ?_, ?_, ?_, ?_, ?_⟩
  · rintro rfl returned e hcourse
    exact Phase.Unfolds.start_told (hcourse ▸ hunfolds)
  · rintro rfl e he
    exact hunfolds.stop_told he
  · intro k task htask howner hphase
    have hof : taskOf? (initial.run happened).tasks i phase k = some task :=
      taskOf?_eq_some.mpr ⟨htask, howner, hphase⟩
    obtain ⟨hreturned, -, hasks⟩ := haccount.works hof
    exact ⟨hreturned, hasks, fun htask' howner' hphase' =>
      haccount.single hof (taskOf?_eq_some.mpr ⟨htask', howner', hphase'⟩)⟩
  · rintro rfl hcut hcourse
    exact CallbackStage.start_asks (hcourse ▸ haccount.stage) fun h => hcut h.1
  · intro hexhausted hcut hinvoked
    exact exhausted_stage haccount.stage (fun h => hcut h.1) hc hexhausted hinvoked
  · intro hcut x hx'
    obtain rfl := hcut.1
    exact not_heeds_of_leaving (hcut.leaving hx hc) hx'

/-- A service with callbacks of its own. -/
def scriptedService (name : Name) (start stop : List Action) : Service :=
  { plainService name [] with callbacks := .scripted false start stop }

/-- Two services start and are removed: one asks twice to be complete later, and panics in its
`stop`; the start of the other one is cut short. -/
def workersEnd : List Stimulus :=
  [.request (.request 0) .start,
    .request (.request 1) (.install (scriptedService "worker"
      [.runBlocking .done true, .runAsync ⟨5, .panic .unreadable⟩ true true]
      [.panic .unreadable])),
    .request (.request 2) (.install (scriptedService "slow"
      [.runAsync ⟨5, .done⟩ true false] []))] ++
  turns 2 2 ++ [.move (.run 0), .move (.run 0), .move (.join 0), .move (.take 0),
    .request (.request 3) (.remove "worker"), .request (.request 4) (.remove "slow"),
    .move .receive, .move .receive, .move .receive, .move .receive, .move .receive,
    .move (.take 0), .move (.take 1), .move .receive, .move (.take 0), .move (.callOff 1)]

/-- The second request of the worker and its panic change nothing for its controller; the controller
of the other service is told nothing of the start it cut short. -/
theorem oneOutcome_workersEnd : (∀ x ∈ workersEnd, x ≠ .cancel) ∧
    initial.course workersEnd 0 .start = [.invoked, .returned (.ok ()), .told .started] ∧
    initial.course workersEnd 0 .stop = [.invoked,
      .returned (.error (Panic.toFailure .stop .unreadable)), .told .stopped] ∧
    initial.course workersEnd 1 .start = [.invoked, .returned (.ok ())] ∧
    StartCut workersEnd 1 .start ∧
    ∃ a b, (initial.run workersEnd).controllers = [a, b] ∧
      ∀ phase, OneOutcome workersEnd 0 a phase ∧ OneOutcome workersEnd 1 b phase := by
  have hx : ∀ x ∈ workersEnd, x ≠ .cancel := by
    simp only [workersEnd, List.forall_mem_append, List.forall_mem_cons]
    refine ⟨⟨⟨nofun, nofun, nofun, nofun⟩, not_cancel_turns 2 2⟩, ?_⟩
    exact ⟨nofun, nofun, nofun, nofun, nofun, nofun, nofun, nofun, nofun, nofun, nofun, nofun,
      nofun, nofun, nofun, nofun, nofun⟩
  have hlen : (initial.run workersEnd).controllers.length = 2 := by decide +kernel
  obtain ⟨a, b, hab⟩ := List.length_eq_two.mp hlen
  exact ⟨hx, by decide +kernel, by decide +kernel, by decide +kernel, ⟨rfl, by decide +kernel⟩,
    a, b, hab, fun phase =>
      ⟨oneOutcome_run hx (by rw [hab]; rfl) phase, oneOutcome_run hx (by rw [hab]; rfl) phase⟩⟩

end System

end ServiceHost
