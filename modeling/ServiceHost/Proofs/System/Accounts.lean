import ServiceHost.Proofs.System.Beginnings
import ServiceHost.Proofs.System.Interruptions
import ServiceHost.Proofs.System.Milestones

/-! # An account of each callback

What was seen of a callback agrees with where its controller stands and with the task it left. What
does not concern the callback carries that along, and however the callback comes back once it is
invoked or goes on, it is in order. -/

namespace ServiceHost

/-- The lifecycle has come to where a callback is under way, or is past that. -/
def Phase.Reached (phase : Phase) (s : State) : Prop :=
  match phase with
  | .start => 1 ≤ s.phase
  | .stop => 4 ≤ s.phase

/-- What a callback of a controller asks to be complete after. -/
def Controller.asks? (c : Controller) (phase : Phase) : Option (Completion × Bool) :=
  completion? (c.plan.conduct.script phase)

/-- The same of a callback that is suspended, as far as that is still to be seen. -/
def Controller.underway? (c : Controller) (phase : Phase) : Option (Option (Completion × Bool)) :=
  (c.callback.filter fun callback => callback.phase = phase).map fun callback =>
    callback.left?.or (completion? callback.rest)

/-- No outcome of a callback waits to be taken. -/
def Controller.Untold (c : Controller) (phase : Phase) : Prop := ∀ x ∈ c.signals, ¬phase.Outcome x

/-- How far a callback of a controller has come, with what was seen of it. -/
inductive CallbackStage (tasks : List Task) (cut : Prop) (i : Nat) (phase : Phase)
    (c : Controller) : List Milestone → Prop
  | idle (hfree : c.underway? phase = none) (huntold : c.Untold phase) :
    CallbackStage tasks cut i phase c []
  /-- The controller did not invoke it, and told itself that it failed. -/
  | spared (failure : Failure) (hreached : phase.Reached c.state)
    (hfree : c.underway? phase = none) :
    CallbackStage tasks cut i phase c [.told (phase.event (.error failure))]
  | running (hreached : phase.Reached c.state) (hrunning : c.underway? phase = some (c.asks? phase))
    (huntold : c.Untold phase) : CallbackStage tasks cut i phase c [.invoked]
  /-- It is complete after some work, and that is waited for. -/
  | pending (k : Nat) (task : Task) (interruptible : Bool) (hreached : phase.Reached c.state)
    (hfree : c.underway? phase = none) (huntold : c.Untold phase)
    (htask : taskOf? tasks i phase k = some task) (hwatched : task.watched = true)
    (hasks : c.asks? phase = some (task.work, interruptible))
    (hwanted : task.unwanted = false → phase.In c.state ∧ c.pending = some k ∧
      (phase = .start → c.interruptible = interruptible))
    (hcut : task.unwanted = true → cut) :
    CallbackStage tasks cut i phase c [.invoked, .returned (.ok ())]
  | calledOff (hasks : (c.asks? phase).isSome = true) (hcut : cut)
    (hreached : phase.Reached c.state) (hfree : c.underway? phase = none)
    (hover : ∀ {k task}, taskOf? tasks i phase k = some task → task.watched = false) :
    CallbackStage tasks cut i phase c [.invoked, .returned (.ok ())]
  | told (returned : Except Failure Unit) (hreached : phase.Reached c.state)
    (hfree : c.underway? phase = none)
    (hover : ∀ {k task}, taskOf? tasks i phase k = some task → task.watched = false) :
    CallbackStage tasks cut i phase c [.invoked, .returned returned,
      .told (phase.event (phase.verdict (c.asks? phase) returned))]

/-- What was seen of a callback is in order. -/
structure Account (tasks : List Task) (cut : Prop) (i : Nat) (phase : Phase) (c : Controller)
    (course : List Milestone) : Prop where
  stage : CallbackStage tasks cut i phase c course
  /-- A task does the work that was asked for first, for a callback that came back well. -/
  works : ∀ {k task}, taskOf? tasks i phase k = some task → .returned (.ok ()) ∈ course ∧
    task.Ends ∧ ∃ interruptible, c.asks? phase = some (task.work, interruptible)
  single : ∀ {k task k' task'}, taskOf? tasks i phase k = some task →
    taskOf? tasks i phase k' = some task' → k = k'

/-- A task goes on, or it is called off: it may only be watched then if a start was cut short. -/
structure Task.Goes (cut : Prop) (t t' : Task) : Prop where
  work : t'.work = t.work
  watched : t'.watched = t.watched ∨ (t.unwanted = true ∧ t'.watched = false)
  unwanted : t'.unwanted = t.unwanted ∨
    (t'.unwanted = true ∧ t'.watched = t.watched ∧ (t.watched = true → cut))
  ends : t.Ends → t'.Ends

/-- What a step leaves of a callback that it does not concern. -/
structure Carries (cut : Prop) (i : Nat) (phase : Phase) (tasks tasks' : List Task)
    (c c' : Controller) : Prop where
  plan : c'.plan = c.plan
  state : c.state.phase ≤ c'.state.phase
  underway : c'.underway? phase = c.underway? phase
  untold : c.Untold phase → c'.Untold phase
  wanted : c.Untold phase → phase.In c.state →
    (phase.In c'.state ∧ c'.pending = c.pending ∧ c'.interruptible = c.interruptible) ∨
      ∀ {k task}, c.pending = some k → taskOf? tasks' i phase k = some task → task.unwanted = true
  tasks : ∀ k, Option.Rel (Task.Goes cut) (taskOf? tasks i phase k) (taskOf? tasks' i phase k)

variable {tasks tasks' : List Task} {cut cut' : Prop} {i : Nat} {phase : Phase} {c c' : Controller}
  {course : List Milestone} {t : Turn} {task : Task} {k : Nat}

theorem Phase.Reached.mono {s s' : State} (h : phase.Reached s) (hs : s.phase ≤ s'.phase) :
    phase.Reached s' := by
  cases phase <;> exact Nat.le_trans h hs

theorem Phase.In.reached {s : State} (h : phase.In s) : phase.Reached s := by
  cases phase <;> exact Nat.le_of_eq h.symm

theorem Phase.In.eq_of {phase' : Phase} {s : State} (h : phase.In s) (h' : phase'.In s) :
    phase = phase' := by
  cases phase <;> cases phase' <;> simp_all [Phase.In]

theorem Controller.asks?_congr (h : c'.plan = c.plan) (phase : Phase) :
    c'.asks? phase = c.asks? phase := by
  rw [asks?, asks?, h]

theorem Controller.underway?_of_idle (h : c.callback = none) (phase : Phase) :
    c.underway? phase = none := by
  simp [underway?, h]

theorem Controller.underway?_of_ne {callback : Callback} (h : c.callback = some callback)
    (hne : callback.phase ≠ phase) : c.underway? phase = none := by
  simp [underway?, h, Option.filter_some, hne]

theorem Controller.underway?_of_eq {callback : Callback} (h : c.callback = some callback)
    (he : callback.phase = phase) :
    c.underway? phase = some (callback.left?.or (completion? callback.rest)) := by
  simp [underway?, h, Option.filter_some, he]

theorem Task.Follows.goes {t t' : Task} (h : t.Follows t') : t.Goes cut t' where
  work := h.work
  watched := h.watched
  unwanted := .inl h.unwanted
  ends := h.ends

theorem Task.Goes.of_rel {o o' : Option Task} (h : Option.Rel Task.Follows o o') :
    Option.Rel (Task.Goes cut) o o' := by
  cases h with
  | none => exact .none
  | some hf => exact .some hf.goes

/-! ## Callbacks a step does not concern -/

namespace Carries

variable (h : Carries cut' i phase tasks tasks' c c')
include h

/-- Every task that is there was there before. -/
theorem old {task' : Task} (ht : taskOf? tasks' i phase k = some task') :
    ∃ task, taskOf? tasks i phase k = some task ∧ task.Goes cut' task' := by
  have hrel := h.tasks k
  rw [ht] at hrel
  generalize taskOf? tasks i phase k = o at hrel
  cases hrel with
  | some hg => exact ⟨_, rfl, hg⟩

theorem unwatched (hover : ∀ {k task}, taskOf? tasks i phase k = some task → task.watched = false)
    {task' : Task} (ht : taskOf? tasks' i phase k = some task') : task'.watched = false := by
  obtain ⟨task, htask, hg⟩ := h.old ht
  rcases hg.watched with hw | ⟨-, hw⟩
  · rw [hw, hover htask]
  · exact hw

end Carries

/-- While the completion of a callback is pending, its task goes on or is called off. -/
theorem CallbackStage.carries_pending {task task' : Task} {interruptible : Bool}
    (hc : Carries cut' i phase tasks tasks' c c') (hcut : cut → cut')
    (hsingle : ∀ {n task₁}, taskOf? tasks i phase n = some task₁ → k = n)
    (hreached : phase.Reached c'.state) (hfree : c'.underway? phase = none)
    (hu : c.Untold phase) (hwatched : task.watched = true)
    (hasks : c'.asks? phase = some (task.work, interruptible))
    (hwanted : task.unwanted = false → phase.In c.state ∧ c.pending = some k ∧
      (phase = .start → c.interruptible = interruptible))
    (hcut₀ : task.unwanted = true → cut) (htask' : taskOf? tasks' i phase k = some task')
    (hg : task.Goes cut' task') :
    CallbackStage tasks' cut' i phase c' [.invoked, .returned (.ok ())] := by
  rcases hg.watched with hw | ⟨hun, hw⟩
  · have hstill : task'.unwanted = false → task.unwanted = false := by
      intro hun
      rcases hg.unwanted with he | ⟨he, -⟩
      · exact he ▸ hun
      · rw [hun] at he
        cases he
    refine .pending k task' interruptible hreached hfree (hc.untold hu) htask' (hw.trans hwatched)
      (by rw [hasks, hg.work]) (fun hun => ?_) fun hun => ?_
    · obtain ⟨hin, hpending, hflag⟩ := hwanted (hstill hun)
      rcases hc.wanted hu hin with ⟨hin', hpending', hflag'⟩ | hall
      · exact ⟨hin', hpending'.trans hpending, fun hp => hflag'.trans (hflag hp)⟩
      · rw [hall hpending htask'] at hun
        cases hun
    · rcases hg.unwanted with he | ⟨-, -, hcut'⟩
      · exact hcut (hcut₀ (he ▸ hun))
      · exact hcut' hwatched
  · refine .calledOff (by rw [hasks]; rfl) (hcut (hcut₀ hun)) hreached hfree fun hn => ?_
    obtain ⟨task₀, h₀, -⟩ := hc.old hn
    obtain rfl := hsingle h₀
    obtain rfl := Option.some.inj (htask'.symm.trans hn)
    exact hw

theorem Account.carries (h : Account tasks cut i phase c course) (hcut : cut → cut')
    (hc : Carries cut' i phase tasks tasks' c c') : Account tasks' cut' i phase c' course := by
  have hasks := Controller.asks?_congr hc.plan phase
  have hreached : phase.Reached c.state → phase.Reached c'.state := fun hr => hr.mono hc.state
  have hfree : c.underway? phase = none → c'.underway? phase = none :=
    fun hf => hc.underway.trans hf
  refine ⟨?_, fun ht => ?_, fun ht ht' => ?_⟩
  · cases h.stage with
    | idle hf hu => exact .idle (hfree hf) (hc.untold hu)
    | spared failure hr hf => exact .spared failure (hreached hr) (hfree hf)
    | running hr hrun hu =>
        exact .running (hreached hr) (by rw [hc.underway, hrun, hasks]) (hc.untold hu)
    | pending k task interruptible hr hf hu htask hwatched hask hwanted hcut₀ =>
        have hrel := hc.tasks k
        rw [htask] at hrel
        generalize htask' : taskOf? tasks' i phase k = o at hrel
        cases hrel with
        | some hg =>
            exact .carries_pending hc hcut (h.single htask) (hreached hr) (hfree hf) hu hwatched
              (hasks.trans hask) hwanted hcut₀ htask' hg
    | calledOff hask hcut₀ hr hf hover =>
        exact .calledOff (hasks ▸ hask) (hcut hcut₀) (hreached hr) (hfree hf) (hc.unwatched hover)
    | told returned hr hf hover =>
        rw [← hasks]
        exact .told returned (hreached hr) (hfree hf) (hc.unwatched hover)
  · obtain ⟨task, htask, hg⟩ := hc.old ht
    obtain ⟨hok, hends, interruptible, hask⟩ := h.works htask
    exact ⟨hok, hg.ends hends, interruptible, by rw [hasks, hask, hg.work]⟩
  · obtain ⟨task, htask, -⟩ := hc.old ht
    obtain ⟨task', htask', -⟩ := hc.old ht'
    exact h.single htask htask'

/-- A callback is carried through what a controller is told of other things. -/
theorem carries_told {messages : List Message}
    (hm : ∀ y ∈ messages.filterMap Message.signal?, ¬phase.Outcome y)
    (htasks : ∀ k,
      Option.Rel (Task.Goes cut) (taskOf? tasks i phase k) (taskOf? tasks' i phase k)) :
    Carries cut i phase tasks tasks' c (c.told messages) := by
  refine ⟨c.told_plan messages, Nat.le_of_eq (by rw [c.told_state messages]), ?_, fun hu x hx => ?_,
    fun _ hin => .inl ⟨by rwa [c.told_state messages], ?_, ?_⟩, htasks⟩
  · rw [Controller.underway?, c.told_callback messages]
    rfl
  · rw [Controller.told] at hx
    split at hx
    · exact hu x hx
    · rw [Controller.signals, List.filterMap_append, List.mem_append] at hx
      exact hx.elim (hu x) (hm x)
  · rw [Controller.told]
    split <;> rfl
  · rw [Controller.told]
    split <;> rfl

theorem Controller.Hears.carries (hears : c.Hears c')
    (htasks : ∀ k, Option.Rel Task.Follows (taskOf? tasks i phase k) (taskOf? tasks' i phase k)) :
    Carries cut i phase tasks tasks' c c' := by
  have hrel : ∀ k,
      Option.Rel (Task.Goes cut) (taskOf? tasks i phase k) (taskOf? tasks' i phase k) :=
    fun k => Task.Goes.of_rel (htasks k)
  cases hears with
  | alarm =>
      refine ⟨rfl, Nat.le_refl _, ?_, id, fun _ hin => .inl ⟨hin, rfl, rfl⟩, hrel⟩
      unfold underway? Controller.alarm
      cases hcallback : c.callback with
      | none => rfl
      | some callback =>
          by_cases hw : callback.wait = .timer <;>
            simp [Option.filter_some, hw, Callback.left?, apply_ite]
  | told messages hm => exact carries_told (fun y hy ho => hm y hy ho.own) hrel

/-- A task that is watched belongs to a callback whose completion is pending. -/
theorem Account.pending_of (h : Account tasks cut i phase c course)
    (htask : taskOf? tasks i phase k = some task) (hwatched : task.watched = true) :
    course = [.invoked, .returned (.ok ())] ∧ phase.Reached c.state ∧ c.underway? phase = none ∧
      c.Untold phase ∧ (task.unwanted = false → phase.In c.state ∧
        (phase = .start → c.asks? phase = some (task.work, c.interruptible))) ∧
      (task.unwanted = true → cut) := by
  have hreturned := (h.works htask).1
  cases h.stage with
  | idle | spared | running => simp at hreturned
  | pending k' task' interruptible hr hf hu htask' _ hasks hwanted hcut =>
      obtain rfl := h.single htask htask'
      obtain rfl := Option.some.inj (htask.symm.trans htask')
      refine ⟨rfl, hr, hf, hu, fun hun => ⟨(hwanted hun).1, fun hp => ?_⟩, hcut⟩
      rw [hasks, (hwanted hun).2.2 hp]
  | calledOff _ _ _ _ hover | told _ _ _ hover => simp [hover htask] at hwatched

/-- A callback that the lifecycle has not come to is idle. -/
theorem Account.idle_of (h : Account tasks cut i phase c course) (hr : ¬phase.Reached c.state) :
    course = [] ∧ c.Untold phase ∧ ∀ k, taskOf? tasks i phase k = none := by
  cases h.stage with
  | idle hf hu =>
      refine ⟨rfl, hu, fun k => Option.eq_none_iff_forall_ne_some.mpr fun task htask => ?_⟩
      cases (h.works htask).1
  | spared _ hreached | running hreached | pending _ _ _ hreached | calledOff _ _ hreached
  | told _ hreached => exact absurd hreached hr

/-! ## Moves -/

namespace Moves

variable {interruptible : Bool} {s next : State} {x : Signal} {effects : List Effect}

theorem call_unreached (h : Moves interruptible s x next effects)
    (hcall : effects.findSome? Effect.call? = some phase) : ¬phase.Reached s := by
  cases h <;> cases hcall <;> simp [Phase.Reached, State.phase]

/-- A start that fails keeps the controller from being stopped. -/
theorem fail_unreached (h : Moves interruptible s x next effects)
    (heffects : effects = [.failStart .failed, .emitStopped]) :
    x = .startFailed ∧ next = .stopping ∧ ¬Phase.stop.Reached s := by
  cases h <;> simp_all [Phase.Reached, State.phase]

/-- An outcome is only emitted when a start has failed. -/
theorem emits (h : Moves interruptible s x next effects)
    (hfail : ¬(phase = .stop ∧ effects = [.failStart .failed, .emitStopped])) :
    ∀ e ∈ effects.filterMap Effect.emit?, ¬phase.Outcome e.signal := by
  cases phase <;> cases h <;>
    simp_all [Effect.emit?, Phase.Outcome, Event.signal]

/-- While a callback is under way, only a start can be asked to stop before its outcome is there. -/
theorem in_untold (h : Moves interruptible s x next effects) (hin : phase.In s)
    (hx : ¬phase.Outcome x) : phase = .start ∧ ((effects = [] ∧ phase.In next) ∨
      (interruptible = true ∧ effects = [.failStart .interrupted, .invokeStop true])) := by
  cases phase <;> cases h <;> simp_all [Phase.In, Phase.Outcome, State.phase]

end Moves

/-! ## Turns -/

@[simp] theorem Turn.final_interruptible (t : Turn) (k : Nat) :
    (t.final k).interruptible = t.controller.interruptible := by
  unfold final
  split
  · rfl
  · split <;> rfl

theorem Turn.final_underway? (t : Turn) (k : Nat) (phase : Phase) :
    (t.final k).underway? phase = t.controller.underway? phase := by
  simp [Controller.underway?]

theorem Turn.final_untold {k : Nat} (h : t.controller.Untold phase) : (t.final k).Untold phase := by
  intro x hx
  rw [Controller.signals, t.final_inbox] at hx
  split at hx
  · cases hx
  · exact h x hx

theorem taskOf?_of_turn (htasks : TurnsInto i t tasks tasks') (phase : Phase) (k : Nat) :
    taskOf? tasks' i phase k = if k = tasks.length then
      (t.deferred.filter (·.1 = phase)).map fun (phase, work) =>
        Task.launch i t.controller.name phase work
    else (taskOf? tasks i phase k).map fun task =>
      if t.calledOff = some k then { task with unwanted := true } else task := by
  rw [taskOf?, htasks k]
  split
  · cases t.deferred with
    | none => rfl
    | some left =>
        by_cases hphase : left.1 = phase <;> simp [Option.filter_some, Task.launch, hphase]
  · rw [taskOf?]
    cases tasks[k]? with
    | none => rfl
    | some task =>
        by_cases hoff : t.calledOff = some k <;>
          by_cases htask : task.owner = i ∧ task.phase = phase <;>
            simp [Option.filter_some, hoff, htask]

/-- The tasks of a callback that a turn does not concern go on. -/
theorem goes_of_turn (htasks : TurnsInto i t tasks tasks')
    (hd : ∀ left, t.deferred = some left → left.1 ≠ phase)
    (hoff : ∀ {k task}, t.calledOff = some k → taskOf? tasks i phase k = some task →
      task.watched = true → cut) (k : Nat) :
    Option.Rel (Task.Goes cut) (taskOf? tasks i phase k) (taskOf? tasks' i phase k) := by
  rw [taskOf?_of_turn htasks]
  split
  · next hlen =>
      have hnone : taskOf? tasks i phase k = none := by
        rw [taskOf?, List.getElem?_eq_none (Nat.le_of_eq hlen.symm)]
        rfl
      have hfilter : t.deferred.filter (·.1 = phase) = none := by
        cases hleft : t.deferred with
        | none => rfl
        | some left => simp [Option.filter_some, hd left hleft]
      rw [hnone, hfilter]
      exact .none
  · cases htask : taskOf? tasks i phase k with
    | none => exact .none
    | some task =>
        refine .some ?_
        split
        · next h => exact ⟨rfl, .inl rfl, .inr ⟨rfl, rfl, hoff h htask⟩, id⟩
        · exact Task.Follows.goes (.refl task)

/-- A controller may tell itself that a callback failed without invoking it. -/
theorem account_spared (cut : Prop) (failure : Failure)
    (hnone : ∀ k, taskOf? tasks i phase k = none) (htasks : TurnsInto i t tasks tasks')
    (hd : t.deferred = none) (hreached : phase.Reached t.controller.state)
    (hidle : t.controller.callback = none) : Account tasks' cut i phase (t.final tasks.length)
      [.told (phase.event (.error failure))] := by
  have hvacant : ∀ {k task}, taskOf? tasks' i phase k ≠ some task := by
    intro k task
    rw [taskOf?_of_turn htasks, hd, hnone k]
    simp
  refine ⟨.spared failure ?_ ?_, fun hk => absurd hk hvacant, fun hk => absurd hk hvacant⟩
  · rw [Turn.final_state]
    exact hreached
  · rw [Turn.final_underway?, Controller.underway?_of_idle hidle]

/-- However a callback comes back that is invoked or goes on, what was seen of it stays in order. -/
theorem account_comes (cut : Prop) {rest : List Message} {returned : Option (Except Failure Unit)}
    (hnone : ∀ k, taskOf? tasks i phase k = none) (htasks : TurnsInto i t tasks tasks')
    (hlive : t.controller.ended = false) (hin : phase.In t.controller.state)
    (hrest : ∀ y ∈ rest.filterMap Message.signal?, ¬phase.Outcome y)
    (h : Comes phase (t.controller.asks? phase) rest t.controller t.deferred returned) :
    ∃ added, t.controller.inbox = rest ++ added ∧
      Account tasks' cut i phase (t.final tasks.length)
        (.invoked :: returned.toList.map .returned ++ (phase.outcomesIn added).map .told) := by
  have hreached : phase.Reached (t.final tasks.length).state := by
    rw [t.final_state]
    exact hin.reached
  have hasks : (t.final tasks.length).asks? phase = t.controller.asks? phase :=
    Controller.asks?_congr (t.final_plan _) phase
  have hfree : t.controller.callback = none → (t.final tasks.length).underway? phase = none :=
    fun hc => (t.final_underway? _ phase).trans (Controller.underway?_of_idle hc phase)
  have hquiet : t.controller.inbox = rest → (t.final tasks.length).Untold phase :=
    fun hi => Turn.final_untold fun x hx => hrest x (hi ▸ hx)
  -- there is no task but the one left now
  have htask : ∀ {k task}, taskOf? tasks' i phase k = some task → k = tasks.length ∧
      ∃ work, t.deferred = some (phase, work) ∧
        task = .launch i t.controller.name phase work := by
    intro k task hk
    rw [taskOf?_of_turn htasks, hnone k] at hk
    split at hk
    · next hlen =>
        obtain ⟨⟨p, work⟩, hleft, rfl⟩ := Option.map_eq_some_iff.mp hk
        obtain ⟨hdeferred, hp⟩ := Option.filter_eq_some_iff.mp hleft
        obtain rfl : p = phase := by simpa using hp
        exact ⟨hlen, work, hdeferred, rfl⟩
    · cases hk
  have hsingle : ∀ {k task k' task'}, taskOf? tasks' i phase k = some task →
      taskOf? tasks' i phase k' = some task' → k = k' :=
    fun hk hk' => (htask hk).1.trans (htask hk').1.symm
  have hvacant : t.deferred = none → ∀ {k task}, taskOf? tasks' i phase k ≠ some task := by
    intro hd k task hk
    obtain ⟨-, work, hleft, -⟩ := htask hk
    rw [hd] at hleft
    cases hleft
  generalize hasked : t.controller.asks? phase = asked at h hasks
  generalize hleft : t.deferred = deferred at h htask hvacant
  cases h with
  | suspended callback hc hp hask hi =>
      refine ⟨[], by simpa using hi, .running hreached ?_ (hquiet hi),
        fun hk => absurd hk (hvacant rfl), hsingle⟩
      rw [t.final_underway?, Controller.underway?_of_eq hc hp, hask, hasks]
  | deferred work interruptible hask hc hi hflag =>
      have hlaunched : taskOf? tasks' i phase tasks.length =
          some (.launch i t.controller.name phase work) := by
        rw [taskOf?_of_turn htasks, if_pos rfl, hleft]
        simp [Option.filter_some]
      have hpending : (t.final tasks.length).pending = some tasks.length := by
        simp [Turn.final, hlive, hleft]
      refine ⟨[], by simpa using hi, ?_, fun hk => ?_, hsingle⟩
      · refine .pending tasks.length _ interruptible hreached (hfree hc) (hquiet hi) hlaunched rfl
          (by rw [hasks, hask]; rfl) (fun _ => ⟨?_, hpending, fun hp => ?_⟩)
          (by simp [Task.launch])
        · rw [t.final_state]
          exact hin
        · rw [t.final_interruptible]
          exact hflag hp
      · obtain ⟨-, work', hwork, rfl⟩ := htask hk
        obtain rfl : work = work' := (Prod.mk.inj (Option.some.inj hwork)).2
        refine ⟨by simp, ?_, interruptible, by rw [hasks, hask]; rfl⟩
        intro outcome houtcome
        cases houtcome
  | told outcome hc hi =>
      refine ⟨_, hi, ?_, fun hk => absurd hk (hvacant rfl), hsingle⟩
      rw [Phase.outcomesIn_event (phase.outcome_event _), ← hasks]
      exact .told outcome hreached (hfree hc) fun hk => absurd hk (hvacant rfl)

end ServiceHost
