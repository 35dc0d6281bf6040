import ServiceHost.Proofs.System.Frames
import ServiceHost.Run

/-! # What can happen in one step

Whatever happens to a system that was not told to stop where it is, is one of a few things. Most of
it concerns neither the container nor what a controller has before it. -/

namespace ServiceHost

/-- The work of a task has come to an end. -/
def Task.Done (t : Task) : Prop :=
  match t.state with
  | .ended _ | .calledOff => True
  | _ => False

theorem Task.isOver_iff {t : Task} : t.isOver = true ↔ t.watched = false ∧ t.Done := by
  unfold isOver Done
  cases t.state <;> simp

theorem Task.Done.not_canRun {t : Task} (h : t.Done) : t.canRun = false := by
  unfold Done at h
  unfold canRun
  cases hstate : t.state <;> simp [hstate] at h ⊢

theorem Task.Done.not_busy {t : Task} (h : t.Done) : t.isBusy = false := by
  unfold Done at h
  unfold isBusy
  cases hstate : t.state <;> simp [hstate] at h ⊢

theorem Task.Done.alarm {t : Task} (h : t.Done) : t.alarm.Done := by
  unfold Done Task.alarm at *
  cases hs : t.state <;> simp_all

/-- Nothing is left to call off: the work is over, or it is blocking work under way. -/
def Task.Unstoppable (t : Task) : Prop := t.Done ∨ t.isBusy = true

theorem Task.done_callOff {t : Task} (h : t.isBusy = false) : t.callOff.Done := by
  unfold Done callOff
  cases t.state <;> simp [h]

theorem Task.unstoppable_callOff (t : Task) : t.callOff.Unstoppable := by
  cases hbusy : t.isBusy with
  | false => exact .inl (done_callOff hbusy)
  | true =>
      refine .inr ?_
      unfold callOff isBusy at *
      cases hs : t.state <;> simp_all

namespace Task.Unstoppable

variable {t t' : Task} (h : t.Unstoppable)
include h

theorem of_same (hs : t'.state = t.state) (hwork : t'.work = t.work) : t'.Unstoppable := by
  unfold Unstoppable Done isBusy at *
  rwa [hs, hwork]

theorem alarm : t.alarm.Unstoppable := by
  refine h.imp Task.Done.alarm fun hbusy => ?_
  unfold isBusy Task.alarm at *
  cases hs : t.state <;> simp_all

theorem run (id : Nat) (w : World) : (t.run id w).1.Unstoppable := by
  rcases h with hdone | hbusy
  · have hrun : (t.run id w).1 = t := by
      unfold Done at hdone
      unfold Task.run
      cases hs : t.state <;> simp_all
    rw [hrun]
    exact .inl hdone
  · unfold isBusy at hbusy
    cases hs : t.state with
    | awake =>
        simp only [Task.run, hs]
        refine .inl ?_
        unfold Task.complete
        cases t.work.ending <;> trivial
    | asleep => exact .inr (by simpa [isBusy, Task.run, hs] using hbusy)
    | queued | ended | calledOff => simp [hs] at hbusy

end Task.Unstoppable

theorem Task.run_watched (t : Task) (id : Nat) (w : World) :
    (t.run id w).1.watched = t.watched := by
  have hcomplete : (t.complete w).1.watched = t.watched := by
    unfold complete
    split <;> rfl
  unfold run
  repeat' split
  all_goals first | rfl | exact hcomplete

theorem Task.run_work (t : Task) (id : Nat) (w : World) : (t.run id w).1.work = t.work := by
  have hcomplete : (t.complete w).1.work = t.work := by
    unfold complete
    split <;> rfl
  unfold run
  repeat' split
  all_goals first | rfl | exact hcomplete

/-- What work that is left to a task comes to. -/
def Ending.outcome (phase : Phase) : Ending → Except Failure Unit
  | .done => .ok ()
  | .fail failure => .error failure
  | .panic cause => .error (Task.panicFailure phase cause)

/-- A task that has ended did so as its work says. -/
def Task.Ends (t : Task) : Prop :=
  ∀ outcome, t.outcome? = some outcome → outcome = t.work.ending.outcome t.phase

/-- A task goes on by itself, is called off since nobody wants it, or is warned about. -/
structure Task.Follows (t t' : Task) : Prop where
  owner : t'.owner = t.owner
  phase : t'.phase = t.phase
  work : t'.work = t.work
  unwanted : t'.unwanted = t.unwanted
  watched : t'.watched = t.watched ∨ (t.unwanted = true ∧ t'.watched = false)
  ends : t.Ends → t'.Ends

theorem Task.Follows.refl (t : Task) : t.Follows t := ⟨rfl, rfl, rfl, rfl, .inl rfl, id⟩

/-- A controller at most noticed that its timer went off. -/
def Controller.Noticed (c c' : Controller) : Prop := c' = c ∨ c' = c.alarm

namespace System

/-- A step that only concerns timers, tasks and who acts next. -/
structure Calm (s s' : System) : Prop where
  container : s'.container = s.container
  controllers : ∀ i : Nat, Option.Rel Controller.Noticed s.controllers[i]? s'.controllers[i]?
  tasks : ∀ k : Nat, Option.Rel Task.Follows s.tasks[k]? s'.tasks[k]?
  cancelled : s'.cancelled = s.cancelled
  pledges : s'.world.pledges = s.world.pledges
  cells : s'.world.cells = s.world.cells

theorem Calm.exists_controller {s s' : System} (h : s.Calm s') {i : Nat} {c' : Controller}
    (hc' : s'.controllers[i]? = some c') : ∃ c, s.controllers[i]? = some c ∧ c.Noticed c' := by
  have hrel := h.controllers i
  rw [hc'] at hrel
  generalize hc : s.controllers[i]? = o at hrel
  cases hrel with
  | some hn => exact ⟨_, rfl, hn⟩

theorem Calm.exists_task {s s' : System} (h : s.Calm s') {k : Nat} {t' : Task}
    (ht' : s'.tasks[k]? = some t') : ∃ t, s.tasks[k]? = some t ∧ t.Follows t' := by
  have hrel := h.tasks k
  rw [ht'] at hrel
  generalize ht : s.tasks[k]? = o at hrel
  cases hrel with
  | some hf => exact ⟨_, rfl, hf⟩

/-- A watcher passes on how a task ended. -/
structure Joins (s : System) (t : Task) (outcome : Except Failure Unit) (id : Nat)
    (s' : System) : Prop where
  task : s.tasks[id]? = some t
  watched : t.watched = true
  ended : t.outcome? = some outcome
  container : s'.container = s.container
  controllers : ∀ i : Nat, s'.controllers[i]? = s.controllers[i]?.map
    (·.told (Graph.Trial.messagesTo i [⟨t.owner, .lifecycle (t.event outcome)⟩]))
  tasks : s'.tasks = s.tasks.set id { t with watched := false }
  cancelled : s'.cancelled = s.cancelled
  pledges : s'.world.pledges = s.world.pledges
  cells : s'.world.cells = s.world.cells

/-- The task that is joined is watched no more, the others are as they were. -/
theorem Joins.task_of_watched {s s' : System} {t : Task} {outcome : Except Failure Unit} {id : Nat}
    (h : s.Joins t outcome id s') {k : Nat} {t' : Task} (ht' : s'.tasks[k]? = some t')
    (hw : t'.watched = true) : s.tasks[k]? = some t' := by
  rw [h.tasks, List.getElem?_set] at ht'
  split at ht'
  · obtain ⟨_, he⟩ := Option.ite_none_right_eq_some.mp ht'
    obtain rfl := Option.some.inj he
    cases hw
  · exact ht'

/-- What a step makes of a system. -/
inductive Step (s : System) : Stimulus → System → Prop
  | calm {x : Stimulus} {s' : System} (h : s.Calm s')
    (hx : ∀ id : Nat, x = .move (.take id) → s.canMove (.take id) = false) : Step s x s'
  | opened (origin : Origin) {s' : System} (hs : s.container.stage = .fresh)
    (h : Unmoved { s with container := { s.container with stage := .opened } } s')
    (hw : s'.world.pledges = s.world.pledges) (hcells : s'.world.cells = s.world.cells) :
    Step s (.request origin .start) s'
  | asked (origin : Origin) (operation : Operation) (requests : List Request) (w : World)
    (h : Asked s.world requests w) :
    Step s (.request origin operation) ({ s with world := w }.sendAll requests)
  | received (request : Request) (rest : List Request) (hs : s.container.isServing = true)
    (hi : s.container.inbox = request :: rest) : Step s (.move .receive) s.receive
  | finished (hs : s.container.stage = .closed) (hq : s.isQuiet = true) :
    Step s (.move .finish) s.finish
  | took (id : Nat) (c : Controller) (hc : s.controllers[id]? = some c) (h : c.canTake = true) :
    Step s (.move (.take id)) (s.applyTurn id (c.take id s.world))
  | resumed (id : Nat) (c : Controller) (callback : Callback)
    (answer : Option (Awaited × Except Error Answer)) (hc : s.controllers[id]? = some c)
    (h : c.wakeUp? s.world = some (callback, answer)) :
    Step s (.move (.resume id)) (s.applyTurn id (c.resume id s.world))
  | joined (id : Nat) (task : Task) (outcome : Except Failure Unit) {s' : System}
    (h : s.Joins task outcome id s') : Step s (.move (.join id)) s'

variable {s s' : System}

theorem Calm.of_unmoved (h : s.Unmoved s') (hw : s'.world.pledges = s.world.pledges)
    (hcells : s'.world.cells = s.world.cells) : s.Calm s' := by
  refine ⟨h.container, fun i => ?_, fun k => ?_, h.cancelled, hw, hcells⟩
  · rw [h.controllers]
    cases s.controllers[i]? with
    | none => exact .none
    | some c => exact .some (.inl rfl)
  · rw [h.tasks]
    cases s.tasks[k]? with
    | none => exact .none
    | some t => exact .some (.refl t)

theorem Calm.refl (s : System) : s.Calm s := .of_unmoved (.refl s) rfl rfl

theorem calm_giveUp (s : System) : s.Calm s.giveUp :=
  .of_unmoved (unmoved_giveUp s) (congrArg World.pledges (giveUp_world s))
    (congrArg World.cells (giveUp_world s))

/-- One task goes on. -/
theorem Calm.of_task {id : Nat} {t t' : Task} (ht : s.tasks[id]? = some t) (h : t.Follows t')
    (hcontainer : s'.container = s.container) (hcontrollers : s'.controllers = s.controllers)
    (htasks : s'.tasks = s.tasks.set id t') (hcancelled : s'.cancelled = s.cancelled)
    (hw : s'.world.pledges = s.world.pledges) (hcells : s'.world.cells = s.world.cells) :
    s.Calm s' := by
  refine ⟨hcontainer, fun i => ?_, fun k => ?_, hcancelled, hw, hcells⟩
  · rw [hcontrollers]
    cases s.controllers[i]? with
    | none => exact .none
    | some c => exact .some (.inl rfl)
  · have hlt : id < s.tasks.length := (List.getElem?_eq_some_iff.mp ht).1
    simp only [htasks, List.getElem?_set, hlt, if_true]
    split
    · next hk =>
        subst hk
        rw [ht]
        exact .some h
    · cases s.tasks[k]? with
      | none => exact .none
      | some t => exact .some (.refl t)

/-! ## Tasks -/

theorem follows_complete (t : Task) (w : World) :
    t.Follows (t.complete w).1 ∧ (t.complete w).2.pledges = w.pledges ∧
      (t.complete w).2.cells = w.cells := by
  have hended : ∀ {outcome}, outcome = t.work.ending.outcome t.phase →
      t.Follows { t with state := .ended outcome } := by
    intro outcome h
    refine ⟨rfl, rfl, rfl, rfl, .inl rfl, fun _ o ho => ?_⟩
    exact (Option.some.inj ho).symm.trans h
  unfold Task.complete
  cases hending : t.work.ending with
  | done | fail failure | panic cause => exact ⟨hended (by rw [hending]; rfl), rfl, rfl⟩

theorem follows_run (t : Task) (id : Nat) (w : World) :
    t.Follows (t.run id w).1 ∧ (t.run id w).2.pledges = w.pledges ∧
      (t.run id w).2.cells = w.cells := by
  unfold Task.run
  split
  · next hstate =>
      have hbegun : ∀ state : TaskState, (∀ o, state ≠ .ended o) →
          t.Follows { t with state := state } := by
        intro state hne
        refine ⟨rfl, rfl, rfl, rfl, .inl rfl, fun _ o ho => ?_⟩
        cases state <;> simp_all [Task.outcome?]
      split
      · split
        · exact ⟨hbegun .awake (by simp), rfl, rfl⟩
        · exact follows_complete t w
      · exact ⟨hbegun .asleep (by simp), rfl, rfl⟩
  · exact follows_complete t w
  · exact ⟨.refl t, rfl, rfl⟩

theorem outcome?_callOff (t : Task) : t.callOff.outcome? = t.outcome? := by
  unfold Task.outcome? Task.callOff
  cases hs : t.state <;> by_cases hb : t.isBusy = true <;> simp [hb]

theorem follows_callOff {t : Task} (h : t.unwanted = true) : t.Follows t.callOff :=
  ⟨rfl, rfl, rfl, rfl, .inr ⟨h, rfl⟩, fun hends o ho => hends o (outcome?_callOff t ▸ ho)⟩

theorem follows_alarm (t : Task) : t.Follows t.alarm := by
  refine ⟨rfl, rfl, rfl, rfl, .inl rfl, fun hends o ho => hends o ?_⟩
  unfold Task.outcome? Task.alarm at *
  cases hs : t.state <;> simp_all

theorem follows_graceOver (t : Task) : t.Follows t.graceOver :=
  ⟨rfl, rfl, rfl, rfl, .inl rfl, id⟩

theorem calm_runTask (s : System) (id : Nat) : s.Calm (s.runTask id) := by
  unfold runTask
  cases ht : s.tasks[id]? with
  | none => exact .refl s
  | some t =>
      obtain ⟨hfollows, hw, hcells⟩ := follows_run t id s.world
      dsimp only
      split
      · have hu := (unmoved_wake ({ s with world := (t.run id s.world).2 }.setTask id
          (t.run id s.world).1) (.watcher id)).trans (unmoved_noticeEnd _)
        refine .of_task ht hfollows hu.container hu.controllers hu.tasks hu.cancelled ?_ ?_
        · rw [noticeEnd_world, wake_world]
          exact hw
        · rw [noticeEnd_world, wake_world]
          exact hcells
      · exact .of_task ht hfollows rfl rfl rfl rfl hw hcells

theorem calm_callOffTask {id : Nat} {t : Task} (ht : s.tasks[id]? = some t)
    (h : t.unwanted = true) : s.Calm (s.callOffTask id) := by
  have hu := unmoved_noticeEnd (s.setTask id t.callOff)
  have hw := noticeEnd_world (s.setTask id t.callOff)
  simp only [callOffTask, ht]
  exact .of_task ht (follows_callOff h) hu.container hu.controllers hu.tasks hu.cancelled
    (congrArg World.pledges hw) (congrArg World.cells hw)

theorem calm_warnOverdue (s : System) (id : Nat) : s.Calm (s.warnOverdue id) := by
  unfold warnOverdue
  cases ht : s.tasks[id]? with
  | none => exact .refl s
  | some t =>
      have hfollows : t.Follows { t with overdue := false } :=
        ⟨rfl, rfl, rfl, rfl, .inl rfl, fun h => h⟩
      exact .of_task ht hfollows rfl rfl rfl rfl rfl rfl

theorem joins_joinTask {id : Nat} {t : Task} {outcome : Except Failure Unit}
    (ht : s.tasks[id]? = some t) (hw : t.watched = true) (ho : t.outcome? = some outcome) :
    s.Joins t outcome id (s.joinTask id) := by
  let s₁ := { s with world := t.logOutcome outcome s.world }.setTask id { t with watched := false }
  have hd := delivers_deliver s₁ ⟨t.owner, .lifecycle (t.event outcome)⟩
  have hn := unmoved_noticeEnd (s₁.deliver ⟨t.owner, .lifecycle (t.event outcome)⟩)
  have hworld : (t.logOutcome outcome s.world).pledges = s.world.pledges ∧
      (t.logOutcome outcome s.world).cells = s.world.cells := by
    unfold Task.logOutcome
    split <;> exact ⟨rfl, rfl⟩
  have hjoin : s.joinTask id = (s₁.deliver ⟨t.owner, .lifecycle (t.event outcome)⟩).noticeEnd := by
    simp only [joinTask, ht, ho]
    rfl
  rw [hjoin]
  refine ⟨ht, hw, ho, hn.container.trans hd.container, fun i => ?_, hn.tasks.trans hd.tasks,
    hn.cancelled.trans hd.cancelled, ?_, ?_⟩
  · rw [hn.controllers]
    exact hd.controllers i
  · rw [noticeEnd_world, hd.world]
    exact hworld.1
  · rw [noticeEnd_world, hd.world]
    exact hworld.2

/-! ## Timers -/

theorem calm_alarm (s : System) (a : Actor) : s.Calm (s.alarm a) := by
  have hwoken : ∀ {s₁ : System}, s.Calm s₁ → s.Calm (s₁.wake a) := by
    intro s₁ h
    refine ⟨(wake_container _ _).trans h.container, fun i => ?_, fun k => ?_,
      (wake_cancelled _ _).trans h.cancelled, ?_, ?_⟩
    · rw [wake_controllers]
      exact h.controllers i
    · rw [wake_tasks]
      exact h.tasks k
    · rw [wake_world]
      exact h.pledges
    · rw [wake_world]
      exact h.cells
  have htask : ∀ (id : Nat) (f : Task → Task), (∀ t : Task, t.Follows (f t)) →
      s.Calm { s with tasks := s.tasks.modify id f } := by
    intro id f hf
    refine ⟨rfl, fun i => ?_, fun k => ?_, rfl, rfl, rfl⟩
    · cases s.controllers[i]? with
      | none => exact .none
      | some c => exact .some (.inl rfl)
    · rw [List.getElem?_modify]
      cases s.tasks[k]? with
      | none => exact .none
      | some t =>
          split
          · exact .some (hf t)
          · exact .some (.refl t)
  cases a with
  | container => exact hwoken (.refl s)
  | controller id =>
      apply hwoken
      refine ⟨rfl, fun i => ?_, fun k => ?_, rfl, rfl, rfl⟩
      · simp only [List.getElem?_modify]
        cases s.controllers[i]? with
        | none => exact .none
        | some c =>
            split
            · exact .some (.inr rfl)
            · exact .some (.inl rfl)
      · cases s.tasks[k]? with
        | none => exact .none
        | some t => exact .some (.refl t)
  | task id => exact hwoken (htask id _ follows_alarm)
  | watcher id => exact hwoken (htask id _ follows_graceOver)

theorem calm_elapse (s : System) (t : Timer) : s.Calm (s.elapse t) := by
  unfold elapse
  split
  · have h := calm_alarm { s with world := { s.world with
        clock := max s.world.clock t.due, round := t.round
        timers := s.world.timers.erase t } } t.wakes
    exact ⟨h.container, h.controllers, h.tasks, h.cancelled, h.pledges, h.cells⟩
  · exact .refl s

/-! ## Moves and requests -/

/-- A move by which an actor may obey, once it was told to stop where it is. -/
def Move.Obeys : Move → Prop
  | .force | .cancel _ | .callOff _ => True
  | _ => False

theorem step_perform {m : Move} (hm : m.Obeys → s.cancelled = false) :
    Step s (.move m) (s.perform m) := by
  unfold perform
  by_cases hcan : s.canMove m = true
  · rw [if_pos hcan]
    cases m with
    | receive =>
        simp only [canMove, Bool.and_eq_true, Bool.not_eq_true', List.isEmpty_eq_false_iff] at hcan
        obtain ⟨request, rest, hi⟩ := List.exists_cons_of_ne_nil hcan.2
        exact .received request rest hcan.1 hi
    | force => simp [canMove, hm trivial] at hcan
    | finish =>
        simp only [canMove, Bool.and_eq_true, decide_eq_true_eq] at hcan
        exact .finished hcan.1.1 hcan.2
    | take id =>
        obtain ⟨c, hc, htake⟩ := (Option.any_eq_true _ _).mp hcan
        have happly : s.performNow (.take id) = s.applyTurn id (c.take id s.world) := by
          simp [performNow, take, hc]
        rw [happly]
        exact .took id c hc htake
    | resume id =>
        obtain ⟨c, hc, hresume⟩ := (Option.any_eq_true _ _).mp hcan
        obtain ⟨⟨callback, answer⟩, hwake⟩ := Option.isSome_iff_exists.mp hresume
        have happly : s.performNow (.resume id) = s.applyTurn id (c.resume id s.world) := by
          simp [performNow, resume, hc]
        rw [happly]
        exact .resumed id c callback answer hc hwake
    | cancel id => simp [canMove, hm trivial] at hcan
    | run id => exact .calm (calm_runTask s id) (by simp)
    | join id =>
        obtain ⟨t, ht, hjoin⟩ := (Option.any_eq_true _ _).mp hcan
        obtain ⟨hw, ho⟩ := Bool.and_eq_true_iff.mp hjoin
        obtain ⟨outcome, ho⟩ := Option.isSome_iff_exists.mp ho
        exact .joined id t outcome (joins_joinTask ht hw ho)
    | callOff id =>
        obtain ⟨t, ht, hoff⟩ := (Option.any_eq_true _ _).mp hcan
        have hun : t.unwanted = true := by
          simpa [hm trivial] using (Bool.and_eq_true_iff.mp hoff).2
        exact .calm (calm_callOffTask ht hun) (by simp)
    | warn id => exact .calm (calm_warnOverdue s id) (by simp)
  · rw [if_neg hcan]
    refine .calm (.refl s) fun id hm => ?_
    rw [Stimulus.move.injEq] at hm
    subst hm
    simpa using hcan

theorem apply_take {i : Nat} {c : Controller} (hc : s.controllers[i]? = some c)
    (h : c.canTake = true) :
    s.apply (.move (.take i)) = s.applyTurn i (c.take i s.world) := by
  simp [apply, perform, performNow, canMove, take, hc, h]

theorem apply_resume {i : Nat} {c : Controller} (hc : s.controllers[i]? = some c)
    (h : c.canResume s.world = true) :
    s.apply (.move (.resume i)) = s.applyTurn i (c.resume i s.world) := by
  simp [apply, perform, performNow, canMove, resume, hc, h]

/-- A container that was opened before is not opened again. -/
theorem start_of_ne_fresh (h : s.container.stage ≠ .fresh) :
    s.start = .error (.invalidState "start service container"
      (if s.givenUp || s.container.ended then .closed else .opened)) := by
  unfold start runtime
  cases hs : s.container.stage with
  | fresh => exact absurd hs h
  | opened | closing | closed => cases s.givenUp <;> rfl

/-- Starting opens a container, and changes nothing if it was opened before. -/
theorem operate_start_cases (s : System) (origin : Origin) :
    (s.operate origin .start).2 = s ∨ (s.container.stage = .fresh ∧ ∃ line,
      (s.operate origin .start).2 = ({ s with container :=
        { s.container with stage := .opened } }.log .info line).wake .container) := by
  cases hs : s.container.stage with
  | fresh => exact .inr ⟨rfl, _, by simp only [operate, start, runtime, hs]; rfl⟩
  | opened | closing | closed => exact .inl (by rw [operate, start_of_ne_fresh (by simp [hs])])

theorem step_operate (s : System) (origin : Origin) (o : Operation) :
    Step s (.request origin o) (s.operate origin o).2 := by
  have hask : ∀ (subject : Option Subject) (request : Ticket → Request),
      (∀ t, (request t).ticket? = some t) →
      Step s (.request origin o) (s.ask subject request).2 := fun subject request h =>
    .asked origin o [request (s.world.pledge subject).1] _ (.pledge s.world subject request h)
  have hsubmit : ∀ installs : Progress → Progress,
      (Progress.begin s.world).Asks (installs (.begin s.world)) →
      Step s (.request origin o) (s.submit installs) := by
    intro installs h
    obtain ⟨asked, hr, hw⟩ := h
    rw [submit, hr]
    exact .asked origin o _ _ hw
  cases o with
  | start =>
      rcases s.operate_start_cases origin with heq | ⟨hs, line, heq⟩ <;> rw [heq]
      · exact .calm (.refl s) (by simp)
      · refine .opened origin hs ?_ (by simp [log, World.log]) (by simp [log, World.log])
        exact (unmoved_log _ _ _).trans (unmoved_wake _ _)
  | install d => exact hsubmit (·.install origin none d) (Progress.asks_install _ _ _ d)
  | composite c =>
      exact hsubmit (·.installComposite origin none c) (Progress.goesOn_installComposite _ _ _ c).asks
  | compositeAlone c =>
      exact hsubmit (·.installAlone origin none c) (Progress.Acts.composite _ _ _ c).asks
  | remove name => exact hask _ _ fun _ => rfl
  | has name => exact hask _ _ fun _ => rfl
  | state name => exact hask _ _ fun _ => rfl
  | text | textOfRest => exact hask _ _ fun _ => rfl
  | close | closeInTime => exact hask _ _ fun _ => rfl

/-- Every step that does not tell the system to stop where it is. -/
theorem step_apply (hs : s.cancelled = false) {x : Stimulus} (hx : x ≠ .cancel) :
    Step s x (s.apply x) := by
  cases x with
  | move m => exact step_perform fun _ => hs
  | passOver => exact .calm (.of_unmoved ⟨rfl, rfl, rfl, rfl⟩ rfl rfl) (by simp)
  | elapse t => exact .calm (calm_elapse s t) (by simp)
  | wait clock round => exact .calm (.of_unmoved ⟨rfl, rfl, rfl, rfl⟩ rfl rfl) (by simp)
  | request origin o => exact step_operate s origin o
  | cancel => exact absurd rfl hx
  | log level message => exact .calm (.of_unmoved (unmoved_log s level message) rfl rfl) (by simp)
  | giveUp => exact .calm (calm_giveUp s) (by simp)

/-! ## When nobody can act -/

/-- No actor can make a move. -/
def Quiescent (s : System) : Prop := ∀ m : Move, s.canMove m = false

/-- Everyone there is. -/
def actors (s : System) : List Actor :=
  .container :: (List.range s.controllers.length).map .controller ++
    (List.range s.tasks.length).flatMap fun id => [.task id, .watcher id]

theorem quiescent_iff {s : System} :
    s.Quiescent ↔ ∀ m ∈ s.actors.flatMap movesOf, s.canMove m = false := by
  refine ⟨fun h m _ => h m, fun h m => ?_⟩
  by_contra hcan
  rw [Bool.not_eq_false] at hcan
  have hlt : ∀ {α : Type} {l : List α} {id : Nat} {p : α → Bool}, l[id]?.any p = true →
      id < l.length := by
    intro α l id p hp
    by_contra hge
    rw [List.getElem?_eq_none (by omega)] at hp
    contradiction
  have hno := h m
  rw [hcan, List.mem_flatMap] at hno
  refine Bool.noConfusion (hno ?_)
  cases m with
  | receive | force | finish => exact ⟨.container, by simp [actors], by simp [movesOf]⟩
  | take id | resume id =>
      exact ⟨.controller id, by simp [actors, hlt hcan], by simp [movesOf]⟩
  | cancel id =>
      simp only [canMove, Bool.and_eq_true] at hcan
      exact ⟨.controller id, by simp [actors, hlt hcan.2], by simp [movesOf]⟩
  | run id => exact ⟨.task id, by simp [actors, hlt hcan], by simp [movesOf]⟩
  | join id | callOff id | warn id =>
      exact ⟨.watcher id, by simp [actors, hlt hcan], by simp [movesOf]⟩

instance (s : System) : Decidable s.Quiescent := decidable_of_iff _ quiescent_iff.symm

end System

end ServiceHost
