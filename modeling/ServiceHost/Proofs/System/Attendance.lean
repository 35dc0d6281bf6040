import ServiceHost.Proofs.System.Links

/-! # Nothing is waited for in vain

A controller whose callback is under way is suspended in it, or has its outcome in the inbox, or
left it to a task that is watched and wanted. A removed one has ended, or is about to. -/

namespace ServiceHost

/-- A callback is under way in this state. -/
def Phase.In (phase : Phase) (s : State) : Prop :=
  s.phase = match phase with
    | .start => 1
    | .stop => 4

/-- A task that is to tell a controller how a callback ended. -/
structure Task.Serves (t : Task) (id : Nat) (phase : Phase) : Prop where
  owner : t.owner = id
  phase : t.phase = phase
  watched : t.watched = true
  wanted : t.unwanted = false

/-- What a controller waits for is on its way. -/
structure Attended (id : Nat) (c : Controller) (tasks : List Task) : Prop where
  callback : ∀ callback, c.callback = some callback → callback.phase.In c.state
  ended : c.ended = true → c.state = .removed ∧ c.inbox = []
  last : c.state = .removed → c.ended = true ∨ .removed ∈ c.signals
  awaits : ∀ phase : Phase, phase.In c.state → c.callback.isSome = true ∨
    (∃ x ∈ c.signals, phase.Outcome x) ∨
    ∃ (k : Nat) (t : Task), tasks[k]? = some t ∧ t.Serves id phase
  pending : ∀ k : Nat, c.pending = some k → ∃ t : Task, tasks[k]? = some t ∧ t.owner = id

variable {id : Nat} {c c' : Controller} {tasks tasks' : List Task} {phase : Phase} {t : Turn}
  {w : World} {rest : List Message} {next : State} {effects : List Effect} {e : Event}

/-- No callback of a removed service is under way. -/
theorem Phase.In.ne_removed {s : State} (h : phase.In s) : s ≠ .removed := by
  rintro rfl
  cases phase <;> simp [Phase.In, State.phase] at h

/-- A controller that has ended is not in the middle of a callback. -/
theorem Attended.live (h : Attended id c tasks) (hin : phase.In c.state) : c.ended = false := by
  by_contra hended
  exact hin.ne_removed (h.ended (by simpa using hended)).1

theorem Controller.free_of_removed
    (h : ∀ callback, c.callback = some callback → callback.phase.In c.state)
    (hr : c.state = .removed) : c.callback = none := by
  by_contra hsome
  obtain ⟨callback, hcallback⟩ := Option.ne_none_iff_exists'.mp hsome
  exact (h callback hcallback).ne_removed hr

theorem Phase.Outcome.heeded {x : Signal} (h : phase.Outcome x) (hs : phase.In c.state) :
    c.Heeds x := by
  unfold Controller.Heeds
  cases hc : c.state with
  | starting asked =>
      cases phase with
      | start =>
          rcases h with rfl | rfl
          · cases asked with
            | false => exact ⟨_, _, .complete⟩
            | true => exact ⟨_, _, .late⟩
          · exact ⟨_, _, .fail asked⟩
      | stop => simp [Phase.In, hc, State.phase] at hs
  | stopping =>
      cases phase with
      | start => simp [Phase.In, hc, State.phase] at hs
      | stop => cases h; exact ⟨_, _, .vanish⟩
  | _ => cases phase <;> simp [Phase.In, hc, State.phase] at hs

namespace Moves

variable {interruptible : Bool} {s : State} {x : Signal}

/-- A callback is called on the way to the state in which it is under way. -/
theorem call_in (h : Moves interruptible s x next effects)
    (hc : effects.findSome? Effect.call? = some phase) : phase.In next := by
  cases h <;> cases hc <;> rfl

/-- A callback is under way after a move that called it, or noted down that it is to stop after it
has started, or follows a start that failed. -/
theorem in_next (h : Moves interruptible s x next effects) (hp : phase.In next) :
    effects.findSome? Effect.call? = some phase ∨ (phase.In s ∧ ¬phase.Outcome x ∧ effects = []) ∨
      (phase = .stop ∧ effects = [.failStart .failed, .emitStopped]) := by
  cases h with
  | start => cases phase <;> cases hp; exact .inl rfl
  | late | cut | release => cases phase <;> cases hp; exact .inl rfl
  | fail => cases phase <;> cases hp; exact .inr (.inr ⟨rfl, rfl⟩)
  | note asked hx =>
      cases phase <;> cases hp
      exact .inr (.inl ⟨rfl, by rcases hx with (rfl | rfl) | rfl <;> simp [Phase.Outcome], rfl⟩)
  | abort | complete | drain | vanish | last => cases phase <;> cases hp

theorem to_removed (h : Moves interruptible s x .removed effects) :
    .emitRemoved ∈ effects ∧ effects.findSome? Effect.call? = none ∨ .terminate ∈ effects := by
  cases h with
  | abort | vanish => exact .inl ⟨by simp, rfl⟩
  | last => exact .inr (by simp)

theorem terminate (h : Moves interruptible s x next effects) (he : .terminate ∈ effects) :
    s = .removed := by
  cases h <;> simp at he
  rfl

end Moves

theorem attended_launch (id : Nat) (plan : Plan) (ticket : Ticket) (tasks : List Task) :
    Attended id (Controller.launch plan ticket) tasks := by
  refine ⟨?_, ?_, ?_, ?_, ?_⟩ <;> simp [Controller.launch]
  intro phase hp
  cases phase <;> simp [Phase.In, State.phase] at hp

/-! ## The controller a turn leaves -/

@[simp] theorem Turn.final_state (t : Turn) (k : Nat) :
    (t.final k).state = t.controller.state := by
  unfold final
  split
  · rfl
  · split <;> rfl

@[simp] theorem Turn.final_plan (t : Turn) (k : Nat) : (t.final k).plan = t.controller.plan := by
  unfold final
  split
  · rfl
  · split <;> rfl

@[simp] theorem Turn.final_callback (t : Turn) (k : Nat) :
    (t.final k).callback = t.controller.callback := by
  unfold final
  split
  · rfl
  · split <;> rfl

@[simp] theorem Turn.final_ended (t : Turn) (k : Nat) :
    (t.final k).ended = t.controller.ended := by
  unfold final
  split
  · next h => exact h.symm
  · split <;> rfl

theorem Turn.final_inbox (t : Turn) (k : Nat) :
    (t.final k).inbox = if t.controller.ended then [] else t.controller.inbox := by
  unfold final
  split
  · rfl
  · split <;> rfl

theorem Turn.final_signals (h : t.controller.ended = false) (k : Nat) :
    (t.final k).signals = t.controller.signals := by
  rw [Controller.signals, t.final_inbox, h]
  rfl

/-- The tasks after a turn: one may be called off, and one may be new. -/
def TurnsInto (id : Nat) (t : Turn) (tasks tasks' : List Task) : Prop :=
  ∀ k : Nat, tasks'[k]? =
    if k = tasks.length then t.deferred.map fun (phase, work) =>
      Task.launch id t.controller.name phase work
    else tasks[k]?.map fun task =>
      if t.calledOff = some k then { task with unwanted := true } else task

theorem Turn.final_pending {j k : Nat} (h : (t.final k).pending = some j) :
    t.controller.pending = some j ∨ (j = k ∧ t.deferred.isSome = true) := by
  unfold final at h
  split at h
  · exact .inl h
  · split at h
    · exact .inl h
    · next hd => exact .inr ⟨(Option.some.inj h).symm, by simp [hd]⟩

namespace TurnsInto

theorem owner (h : TurnsInto id t tasks tasks') {k : Nat} {task : Task}
    (ht : tasks[k]? = some task) :
    ∃ task', tasks'[k]? = some task' ∧ task'.owner = task.owner ∧
      (t.calledOff ≠ some k → task' = task) := by
  have hlt : k < tasks.length := (List.getElem?_eq_some_iff.mp ht).1
  refine ⟨_, by rw [h, if_neg (Nat.ne_of_lt hlt), ht, Option.map_some], ?_, ?_⟩
  · split <;> rfl
  · exact fun hk => if_neg hk

theorem deferred (h : TurnsInto id t tasks tasks') {work : Completion}
    (hd : t.deferred = some (phase, work)) :
    ∃ task, tasks'[tasks.length]? = some task ∧ task.Serves id phase := by
  refine ⟨_, by rw [h, if_pos rfl, hd, Option.map_some], ?_⟩
  exact ⟨rfl, rfl, rfl, rfl⟩

end TurnsInto

theorem Came.phase_eq {inbox : List Message} {deferred : Option (Phase × Completion)}
    (h : Came phase inbox c deferred) {callback : Callback} (hc : c.callback = some callback) :
    callback.phase = phase := by
  cases h with
  | suspended callback' hc' hp =>
      rw [hc', Option.some.injEq] at hc
      exact hc ▸ hp
  | returned _ _ hc' | deferred _ hc' => simp [hc'] at hc

/-- A callback that was called is attended to. -/
theorem Came.awaits {inbox : List Message} (h : Came phase inbox t.controller t.deferred)
    (hended : t.controller.ended = false) (ht : TurnsInto id t tasks tasks') :
    (t.final tasks.length).callback.isSome = true ∨
      (∃ x ∈ (t.final tasks.length).signals, phase.Outcome x) ∨
      ∃ (k : Nat) (task : Task), tasks'[k]? = some task ∧ task.Serves id phase := by
  rw [t.final_callback, Turn.final_signals hended]
  generalize hd : t.deferred = d at h
  cases h with
  | suspended callback hc => exact .inl (by rw [hc]; rfl)
  | returned e he _ hi =>
      refine .inr (.inl ⟨e.signal, ?_, he⟩)
      simp [Controller.signals, hi, Message.signal?]
  | deferred work => exact .inr (.inr ⟨_, ht.deferred hd⟩)

namespace Attended

/-- A message that means nothing is taken. -/
theorem skip (h : Attended id c tasks) {message : Message} (hi : c.inbox = message :: rest)
    (hno : ∀ x, message.signal? = some x → ¬c.Heeds x) :
    Attended id { c with inbox := rest } tasks := by
  refine ⟨h.callback, ?_, ?_, ?_, h.pending⟩
  · intro he
    have := (h.ended he).2
    simp [hi] at this
  · intro hr
    exact (h.last hr).imp_right ((heeds_removed (c := c) hr).mem_tail hi hno)
  · intro phase hp
    refine (h.awaits phase hp).imp_right (.imp_left ?_)
    rintro ⟨x, hx, hout⟩
    exact ⟨x, (hout.heeded (c := c) hp).mem_tail hi hno hx, hout⟩

theorem pending_final (h : Attended id c tasks) (ht : TurnsInto id t tasks tasks')
    (hp : t.controller.pending = none ∨ t.controller.pending = c.pending) (k : Nat)
    (hk : (t.final tasks.length).pending = some k) :
    ∃ task, tasks'[k]? = some task ∧ task.owner = id := by
  rcases Turn.final_pending hk with hk | ⟨rfl, hd⟩
  · rcases hp with hp | hp
    · simp [hp] at hk
    · obtain ⟨task, htask, howner⟩ := h.pending k (hp ▸ hk)
      obtain ⟨task', htask', howner', _⟩ := ht.owner htask
      exact ⟨task', htask', howner'.trans howner⟩
  · obtain ⟨⟨phase, work⟩, hd⟩ := Option.isSome_iff_exists.mp hd
    obtain ⟨task, htask, hs⟩ := ht.deferred hd
    exact ⟨task, htask, hs.owner⟩

/-- A controller whose move ends it terminates, or tells itself that it is removed. -/
theorem last_move (hm : Moves c.interruptible c.state e.signal .removed effects)
    (ht : t.Moved w c rest .removed effects) (hended : c.ended = false) (task : Nat) :
    (t.final task).ended = true ∨ .removed ∈ (t.final task).signals := by
  have hleft := ht.left
  rw [t.final_ended]
  by_cases he : t.controller.ended = true
  · exact .inl he
  · rw [Bool.not_eq_true] at he
    rcases hm.to_removed with ⟨hemit, hcall⟩ | hterm
    · simp only [hcall] at hleft
      refine .inr ?_
      rw [Turn.final_signals he, Controller.signals, hleft.1, List.filterMap_append]
      refine List.mem_append_right _ ?_
      exact List.mem_filterMap.mpr ⟨.lifecycle .removed,
        List.mem_map_of_mem (List.mem_filterMap.mpr ⟨_, hemit, rfl⟩), rfl⟩
    · simp [ht.ended, hended, hterm] at he

/-- A move into the middle of a callback calls it, or leaves it where it was; a stop may be told to
be over at once. -/
theorem awaits_move (h : Attended id c tasks) (hi : c.inbox = .lifecycle e :: rest)
    (hc : c.callback = none) (hm : Moves c.interruptible c.state e.signal next effects)
    (ht : t.Moved w c rest next effects) (htasks : TurnsInto id t tasks tasks')
    (hlive : t.controller.ended = false) (hp : phase.In next) :
    (t.final tasks.length).callback.isSome = true ∨
      (∃ x ∈ (t.final tasks.length).signals, phase.Outcome x) ∨
      ∃ (k : Nat) (task : Task), tasks'[k]? = some task ∧ task.Serves id phase := by
  have hleft := ht.left
  rcases hm.in_next hp with hcall | ⟨hp', hx, rfl⟩ | ⟨rfl, rfl⟩
  · simp only [hcall] at hleft
    exact hleft.awaits hlive htasks
  · -- the signal was only noted down: whatever the callback waits for is where it was
    refine .inr ?_
    rw [Turn.final_signals hlive]
    have hcalled := ht.called
    simp only [List.findSome?_nil, reduceCtorEq, if_false] at hcalled hleft
    rcases h.awaits phase hp' with hsome | ⟨x, hmem, hout⟩ | ⟨k, task, htask, hserves⟩
    · simp [hc] at hsome
    · refine .inl ⟨x, ?_, hout⟩
      rw [c.signals_cons hi] at hmem
      rcases List.mem_append.mp hmem with hmem | hmem
      · exact absurd ((Option.some.inj (Option.mem_toList.mp hmem)) ▸ hout) hx
      · simpa [Controller.signals, hleft.1] using hmem
    · obtain ⟨task', htask', _, hsame⟩ := htasks.owner htask
      exact .inr ⟨k, task', htask', hsame (by simp [hcalled.1]) ▸ hserves⟩
  · refine .inr (.inl ⟨.stopped, ?_, rfl⟩)
    rw [Turn.final_signals hlive]
    simp only [List.findSome?_cons, List.findSome?_nil, Effect.call?] at hleft
    simp [Controller.signals, hleft.1, Effect.emit?, Message.signal?, Event.signal]

theorem move (h : Attended id c tasks) (hi : c.inbox = .lifecycle e :: rest)
    (hc : c.callback = none) (hm : Moves c.interruptible c.state e.signal next effects)
    (ht : t.Moved w c rest next effects) (htasks : TurnsInto id t tasks tasks') :
    Attended id (t.final tasks.length) tasks' := by
  have hcended : c.ended = false := by
    by_contra he
    have := (h.ended (by simpa using he)).2
    simp [hi] at this
  -- whoever terminates is removed
  have hterminated : t.controller.ended = true → next = .removed := by
    intro he
    have hr := hm.terminate (by simpa [ht.ended, hcended] using he)
    rw [hr] at hm
    exact hm.removed
  refine ⟨?_, ?_, ?_, ?_, ?_⟩
  · intro callback hcb
    have hleft := ht.left
    rw [t.final_callback] at hcb
    rw [t.final_state, ht.state]
    split at hleft
    · next phase hcall =>
        rw [hleft.phase_eq hcb]
        exact hm.call_in hcall
    · simp [hleft.2.1] at hcb
  · intro he
    rw [t.final_ended] at he
    refine ⟨?_, by rw [t.final_inbox, if_pos he]⟩
    rw [t.final_state, ht.state]
    exact hterminated he
  · intro hr
    rw [t.final_state, ht.state] at hr
    subst hr
    exact last_move hm ht hcended _
  · intro phase hp
    rw [t.final_state, ht.state] at hp
    refine h.awaits_move hi hc hm ht htasks ?_ hp
    by_contra hended
    exact hp.ne_removed (hterminated (by simpa using hended))
  · refine h.pending_final htasks ?_
    have hcalled := ht.called
    split at hcalled
    · exact .inl hcalled.2
    · exact .inr hcalled.2

theorem resume {callback : Callback} (h : Attended id c tasks) (hc : c.callback = some callback)
    (ht : t.Resumed w c callback.phase) (htasks : TurnsInto id t tasks tasks') :
    Attended id (t.final tasks.length) tasks' := by
  have hin := h.callback callback hc
  have hended : t.controller.ended = false := by
    rw [ht.alike.ended]
    by_contra he
    have hr := (h.ended (by simpa using he)).1
    cases hp : callback.phase <;> simp [Phase.In, hp, hr, State.phase] at hin
  refine ⟨?_, ?_, ?_, ?_, ?_⟩
  · intro callback' hcb
    rw [t.final_callback] at hcb
    rw [t.final_state, ht.alike.state, ht.came.phase_eq hcb]
    exact hin
  · intro he
    simp [hended] at he
  · intro hr
    rw [t.final_state, ht.alike.state] at hr
    cases hp : callback.phase <;> simp [Phase.In, hp, hr, State.phase] at hin
  · intro phase hp
    rw [t.final_state, ht.alike.state] at hp
    have hphase : phase = callback.phase := by
      cases phase <;> cases hcb : callback.phase <;> simp_all [Phase.In]
    subst hphase
    exact ht.came.awaits hended htasks
  · exact h.pending_final htasks (.inr ht.alike.pending)

/-- Only what a task means to the controller counts. -/
theorem of_tasks (h : Attended id c tasks) (ht : ∀ {k : Nat} {task : Task},
      tasks[k]? = some task → ∃ task', tasks'[k]? = some task' ∧ task'.owner = task.owner ∧
        ∀ phase, task.Serves id phase → task'.Serves id phase) : Attended id c tasks' := by
  refine ⟨h.callback, h.ended, h.last, ?_, ?_⟩
  · intro phase hp
    refine (h.awaits phase hp).imp_right (.imp_right ?_)
    rintro ⟨k, task, htask, hserves⟩
    obtain ⟨task', htask', _, hkept⟩ := ht htask
    exact ⟨k, task', htask', hkept phase hserves⟩
  · intro k hk
    obtain ⟨task, htask, howner⟩ := h.pending k hk
    obtain ⟨task', htask', howner', _⟩ := ht htask
    exact ⟨task', htask', howner'.trans howner⟩

/-- The turn of another controller calls off none of its tasks. -/
theorem of_turn {id' : Nat} (h : Attended id' c tasks) (hne : id' ≠ id)
    (hcalled : ∀ k : Nat, t.calledOff = some k → ∃ task : Task, tasks[k]? = some task ∧
      task.owner = id)
    (htasks : TurnsInto id t tasks tasks') : Attended id' c tasks' := by
  refine h.of_tasks fun {k task} htask => ?_
  obtain ⟨task', htask', howner, hsame⟩ := htasks.owner htask
  refine ⟨task', htask', howner, fun phase hserves => ?_⟩
  by_cases hk : t.calledOff = some k
  · obtain ⟨task'', htask'', howner''⟩ := hcalled k hk
    rw [htask, Option.some.injEq] at htask''
    rw [← htask'', hserves.owner] at howner''
    exact absurd howner'' hne
  · exact hsame hk ▸ hserves

theorem told (h : Attended id c tasks) (messages : List Message) :
    Attended id (c.told messages) tasks := by
  have hmem : ∀ x, x ∈ c.signals → x ∈ (c.told messages).signals := by
    intro x hx
    rw [c.told_signals]
    exact List.mem_append_left _ hx
  refine ⟨?_, ?_, ?_, ?_, ?_⟩
  · rw [c.told_callback, c.told_state]
    exact h.callback
  · intro he
    rw [c.told_ended] at he
    rw [c.told_state, Controller.told, if_pos he]
    exact h.ended he
  · rw [c.told_state, c.told_ended]
    exact fun hr => (h.last hr).imp_right (hmem _)
  · rw [c.told_state, c.told_callback]
    intro phase hp
    refine (h.awaits phase hp).imp_right (.imp_left ?_)
    rintro ⟨x, hx, hout⟩
    exact ⟨x, hmem x hx, hout⟩
  · rw [c.told_pending]
    exact h.pending

end Attended

end ServiceHost
