import ServiceHost.Proofs.System.Phases
import ServiceHost.Proofs.System.Replies

/-! # When callbacks are invoked

A service whose slots could not all be filled is not started. It has no callback and no task then,
so all it learns is that its start failed, and its `stop` is not called either. -/

namespace ServiceHost

open ServiceHost.Graph (Trial signalsTo)

/-- How its callbacks end, a controller is told by nobody but itself and its tasks. -/
theorem Graph.Trial.Sound.not_own {t : Trial} {steps : List Graph.TrialStep} {i : Inbox}
    (ht : t.Sound) : ∀ x ∈ signalsTo i (t.trace steps), ¬x.Own := by
  induction steps generalizing t with
  | nil => simp [trace]
  | cons s rest ih =>
      intro x hx
      rw [trace, Graph.signalsTo_append, List.mem_append] at hx
      rcases hx with hx | hx
      · cases ht.tells hx <;> decide
      · exact ih (stepSpec ht s).sound x hx

namespace System

variable {s s' : System} {x : Stimulus} {happened : List Stimulus} {i : Nat} {c : Controller}
  {phase : Phase} {cells : Cells}

/-! ## Invocations -/

/-- A controller invokes a callback in a step, with the cells as they are then: `start` once all its
slots are filled, and `stop` whenever it comes to that. -/
inductive Invokes (s : System) (x : Stimulus) (i : Nat) : Phase → Cells → Prop
  | start {c : Controller} {values : List (Name × Value)} {rest : List Message} {cells : Cells}
    (hx : x = .move (.take i)) (hc : s.controllers[i]? = some c) (hcan : c.canTake = true)
    (hw : c.state = .waiting) (hi : c.inbox = .lifecycle (.dependenciesAvailable values) :: rest)
    (hok : Turn.inject c.plan s.world.cells values = (cells, .ok ())) : Invokes s x i .start cells
  | stop {interrupted : Bool} (he : .invokeStop interrupted ∈ s.effects x i) :
    Invokes s x i .stop s.world.cells

/-- In the course of a run, a controller invoked `start`. -/
def StartInvoked (happened : List Stimulus) (i : Nat) : Prop :=
  ∃ before x after cells, happened = before ++ x :: after ∧
    (initial.run before).Invokes x i .start cells

theorem startInvoked_snoc : StartInvoked (happened ++ [x]) i ↔
    StartInvoked happened i ∨ ∃ cells, (initial.run happened).Invokes x i .start cells := by
  constructor
  · rintro ⟨before, x', after, cells, he, h⟩
    rcases append_eq_split.mp he with ⟨rfl, rfl, _⟩ | ⟨after, _, rfl⟩
    · exact .inr ⟨cells, h⟩
    · exact .inl ⟨before, x', after, cells, rfl, h⟩
  · rintro (⟨before, x', after, cells, rfl, h⟩ | ⟨cells, h⟩)
    · exact ⟨before, x', after ++ [x], cells, by simp, h⟩
    · exact ⟨happened, x, [], cells, rfl, h⟩

theorem Invokes.injects (h : s.Invokes x i .start cells) : .injectAndStart ∈ s.effects x i := by
  cases h with
  | start hx hc hcan hw hi hok =>
      rw [hx, effects_take hc hcan]
      simp [Controller.effects, hi, hw, State.effects, transition, Event.signal]

theorem Invokes.controller (h : s.Invokes x i phase cells) : ∃ c, s.controllers[i]? = some c := by
  cases h with
  | start hx hc => exact ⟨_, hc⟩
  | stop he =>
      obtain ⟨c, -, hc, -⟩ := take_of_effects he
      exact ⟨c, hc⟩

theorem StartInvoked.append (h : StartInvoked happened i) (after : List Stimulus) :
    StartInvoked (happened ++ after) i := by
  obtain ⟨before, x, rest, cells, rfl, h⟩ := h
  exact ⟨before, x, rest ++ after, cells, by simp, h⟩

theorem StartInvoked.mem_trace (h : StartInvoked happened i) :
    .injectAndStart ∈ initial.trace happened i := by
  obtain ⟨before, x, after, cells, rfl, h⟩ := h
  rw [trace_append, trace, List.mem_append, List.mem_append]
  exact .inr (.inl h.injects)

end System

/-! ## Who was not started -/

/-- A controller waits, or waits to hear that its start failed: no callback of it is under way. -/
structure Controller.Unbegun (c : Controller) : Prop where
  early : c.state.phase ≤ 1
  uninterruptible : c.interruptible = false
  unstarted : .started ∉ c.signals
  idle : c.callback = none

namespace Controller

variable {c : Controller}

theorem unbegun_launch (plan : Plan) (ticket : Ticket) : (launch plan ticket).Unbegun :=
  ⟨by simp [launch, State.phase], rfl, by simp [launch, signals], rfl⟩

theorem Unbegun.told (h : c.Unbegun) {messages : List Message}
    (hm : ∀ x ∈ messages.filterMap Message.signal?, ¬x.Own) : (c.told messages).Unbegun := by
  refine ⟨(c.told_state messages).symm ▸ h.early, ?_, ?_, (c.told_callback messages).trans h.idle⟩
  · unfold Controller.told
    split
    · exact h.uninterruptible
    · exact h.uninterruptible
  · rw [c.told_signals, List.mem_append, not_or]
    refine ⟨h.unstarted, fun hmem => ?_⟩
    split at hmem
    · cases hmem
    · exact hm _ hmem (.inl rfl)

/-- Whoever is not under way and is not started by a message is not under way afterwards, or is on
its way out. -/
theorem Unbegun.take (h : c.Unbegun) (hcan : c.canTake = true) (id task : Nat) (w : World)
    (hno : ∀ {values rest cells}, c.state = .waiting →
      c.inbox = .lifecycle (.dependenciesAvailable values) :: rest →
      Turn.inject c.plan w.cells values ≠ (cells, .ok ())) :
    4 ≤ ((c.take id w).final task).state.phase ∨
      (((c.take id w).final task).Unbegun ∧ (c.take id w).deferred = none) := by
  have hended : c.ended = false := ended_of_canTake hcan
  -- a turn that leaves the callback alone changes the state and the inbox at most
  have hsame : ∀ {t : Turn} (rest : List Message) (state : State) (resolved : List Name),
      t.controller = { c with inbox := rest, state, resolved } → t.deferred = none →
      state.phase ≤ 1 → .started ∉ rest.filterMap Message.signal? →
      (t.final task).Unbegun ∧ t.deferred = none := by
    intro t rest state resolved ht hd hstate hrest
    have hfinal : t.final task = t.controller := by
      simp [Turn.final, hd, ht, hended]
    rw [hfinal, ht]
    exact ⟨⟨hstate, h.uninterruptible, hrest, h.idle⟩, hd⟩
  have htail : ∀ {message : Message} {rest : List Message}, c.inbox = message :: rest →
      .started ∉ rest.filterMap Message.signal? := by
    intro message rest hi hmem
    refine h.unstarted ?_
    rw [signals_cons hi]
    exact List.mem_append_right _ hmem
  rcases take_cases hcan id w with ⟨message, rest, hi, _, _, hs⟩ | ⟨e, rest, next, hi, _, hm, ht⟩
  · exact .inr (hsame rest c.state c.resolved hs.controller hs.deferred h.early (htail hi))
  · have hstate : ((c.take id w).final task).state = next := (Turn.final_state _ _).trans ht.state
    have hearly := h.early
    have hunstarted : e.signal ≠ .started := by
      rintro he
      refine h.unstarted ?_
      rw [signals_cons hi]
      simp [Message.signal?, he]
    have htake := take_eq hi hm id w
    rw [h.uninterruptible] at hm
    generalize hst : c.state = state at hm hearly
    generalize hsignal : e.signal = x at hm hunstarted
    generalize c.effects = effects at hm htake
    cases hm with
    | start =>
        cases e with
        | dependenciesAvailable values =>
            obtain ⟨cells, outcome, hinject⟩ :
                ∃ cells outcome, Turn.inject c.plan w.cells values = (cells, outcome) :=
              ⟨_, _, rfl⟩
            cases outcome with
            | ok _ => exact absurd hinject (hno hst hi)
            | error why =>
                refine .inr (hsame (rest ++ [.lifecycle (.startFailed why.toFailure)])
                  (.starting false) (values.map Prod.fst) ?_ ?_ (Nat.le_refl _) ?_)
                · simp [htake, Turn.carryOut, Turn.injectAndStart, Turn.begin, hinject, Turn.emit,
                    apply_ite Turn.controller, Turn.report]
                · simp [htake, Turn.carryOut, Turn.injectAndStart, Turn.begin, hinject, Turn.emit,
                    apply_ite Turn.deferred, Turn.report]
                · simpa [Message.signal?, Event.signal] using htail hi
        | _ => cases hsignal
    | note asked =>
        refine .inr (hsame rest (.starting true) c.resolved ?_ ?_ (Nat.le_refl _) (htail hi))
        · simp [htake, Turn.begin, apply_ite Turn.controller, Turn.report]
        · simp [htake, Turn.begin, apply_ite Turn.deferred, Turn.report]
    | abort | fail | vanish | last => exact .inl (by rw [hstate]; decide)
    | complete | late => exact absurd rfl hunstarted
    | cut asked hx hi => cases hi
    | drain | release => simp [State.phase] at hearly

end Controller

namespace System

variable {s s' : System} {x : Stimulus} {happened : List Stimulus} {i : Nat} {c : Controller}

/-! ## Tasks -/

/-- The tasks stay, and nobody is told to stop. -/
structure SparesTasks (s s' : System) : Prop where
  tasks : s'.tasks = s.tasks
  cancelled : s'.cancelled = s.cancelled

theorem SparesTasks.trans {s'' : System} (h : s.SparesTasks s') (h' : s'.SparesTasks s'') :
    s.SparesTasks s'' :=
  ⟨h'.tasks.trans h.tasks, h'.cancelled.trans h.cancelled⟩

theorem Unmoved.sparesTasks (h : s.Unmoved s') : s.SparesTasks s' := ⟨h.tasks, h.cancelled⟩

theorem Operates.sparesTasks {outcome : Graph.Outcome} (h : s.Operates outcome s') :
    s.SparesTasks s' :=
  ⟨h.tasks, h.cancelled⟩

theorem sparesTasks_requestRemovals (s : System) (names : List Name) :
    s.SparesTasks (s.requestRemovals names) := by
  unfold requestRemovals
  induction names generalizing s with
  | nil => exact (Unmoved.refl s).sparesTasks
  | cons a names ih => exact (operates_applyGraph s _).sparesTasks.trans (ih _)

theorem sparesTasks_closeIfEmpty (s : System) : s.SparesTasks s.closeIfEmpty := by
  unfold closeIfEmpty
  split <;> exact ⟨rfl, rfl⟩

theorem sparesTasks_process (s : System) (r : Request) : s.SparesTasks (s.process r) := by
  cases r with
  | install plan ticket =>
      show s.SparesTasks (s.install plan ticket)
      unfold System.install
      split
      · exact (unmoved_refuse s _ _).sparesTasks
      · split
        · exact (unmoved_refuse s _ _).sparesTasks
        · exact ⟨(operates_install s plan ticket).tasks, (operates_install s plan ticket).cancelled⟩
  | remove name ticket =>
      show s.SparesTasks (s.remove name ticket)
      unfold System.remove
      split
      · exact (operates_applyGraph s _).sparesTasks.trans ⟨rfl, rfl⟩
      · exact (unmoved_settle s _ _).sparesTasks
  | has name ticket | state name ticket | text ticket => exact (unmoved_settle s _ _).sparesTasks
  | close ticket =>
      show s.SparesTasks (s.close ticket)
      rw [close_eq]
      split
      · exact (unmoved_settle s _ _).sparesTasks
      · have hbegin : s.SparesTasks (s.beginClosing ticket) := ⟨rfl, rfl⟩
        exact (hbegin.trans (sparesTasks_requestRemovals _ _)).trans (sparesTasks_closeIfEmpty _)
  | report name state value =>
      show s.SparesTasks (s.acceptReport name state value)
      have ho := (operates_applyGraph s (s.container.graph.report name state value)).sparesTasks
      rw [acceptReport_eq]
      dsimp only
      split
      · refine (ho.trans ⟨rfl, rfl⟩ : s.SparesTasks (freeRemovals _ name)).trans ?_
        exact (unmoved_settleAll _ _ _).sparesTasks.trans (sparesTasks_closeIfEmpty _)
      · exact ho

theorem sparesTasks_shutDown (s : System) : s.SparesTasks s.shutDown := by
  unfold System.shutDown
  dsimp only
  have hrefused := (unmoved_refuseAll { s with container := { s.container with
    stage := .closed, inbox := [] } } s.container.inbox
    (.invalidState "complete request" .closed)).sparesTasks
  split
  · exact ⟨(unmoved_settleAll _ _ _).tasks.trans hrefused.tasks,
      (unmoved_settleAll _ _ _).cancelled.trans hrefused.cancelled⟩
  · exact ⟨hrefused.tasks, hrefused.cancelled⟩

/-- The container leaves the tasks alone. -/
theorem sparesTasks_receive (s : System) : s.SparesTasks s.receive := by
  unfold System.receive
  split
  · exact (Unmoved.refl s).sparesTasks
  · next request rest _ =>
      have hprocess : s.SparesTasks
          (System.process { s with container := { s.container with inbox := rest } } request) :=
        have h := sparesTasks_process _ request
        ⟨h.tasks, h.cancelled⟩
      dsimp only
      split
      · exact hprocess.trans (sparesTasks_shutDown _)
      · exact hprocess

/-- A turn leaves one task at most, to the controller whose turn it is. -/
theorem owner_applyTurn {id : Nat} {t : Turn} (hid : id < s.controllers.length) {task' : Task}
    (h : task' ∈ (s.applyTurn id t).tasks) :
    (∃ task ∈ s.tasks, task'.owner = task.owner) ∨ (task'.owner = id ∧ t.deferred.isSome = true) := by
  obtain ⟨k, hk⟩ := List.mem_iff_getElem?.mp h
  rw [(applies_applyTurn hid).tasks] at hk
  split at hk
  · obtain ⟨work, hd, rfl⟩ := Option.map_eq_some_iff.mp hk
    exact .inr ⟨rfl, by simp [hd]⟩
  · obtain ⟨task, htask, rfl⟩ := Option.map_eq_some_iff.mp hk
    refine .inl ⟨task, List.mem_of_getElem? htask, ?_⟩
    split <;> rfl

theorem Calm.owner (h : Calm s s') {task' : Task} (ht : task' ∈ s'.tasks) :
    ∃ task ∈ s.tasks, task'.owner = task.owner := by
  obtain ⟨k, hk⟩ := List.mem_iff_getElem?.mp ht
  obtain ⟨task, htask, hf⟩ := h.exists_task hk
  exact ⟨task, List.mem_of_getElem? htask, hf.owner⟩

/-- A task is left by a controller that takes a message or goes on with a callback. -/
theorem Step.owner (hs : Step s x s') {task' : Task} (h : task' ∈ s'.tasks) :
    (∃ task ∈ s.tasks, task'.owner = task.owner) ∨
      ∃ b : Controller, s.controllers[task'.owner]? = some b ∧
        ((x = .move (.take task'.owner) ∧ (b.take task'.owner s.world).deferred.isSome = true) ∨
          b.callback.isSome = true) := by
  have hsame : s'.tasks = s.tasks → ∃ task ∈ s.tasks, task'.owner = task.owner :=
    fun he => ⟨task', he ▸ h, rfl⟩
  cases hs with
  | calm hcalm hx => exact .inl (hcalm.owner h)
  | opened origin hst hu hw => exact .inl (hsame hu.tasks)
  | asked origin o requests w ha =>
      exact .inl (hsame (sends_sendAll { s with world := w } requests).tasks)
  | received r rest hserving hi => exact .inl (hsame (sparesTasks_receive s).tasks)
  | finished hst hq => exact .inl (hsame (unmoved_finish s).tasks)
  | took id c hc hcan =>
      refine (owner_applyTurn (List.getElem?_eq_some_iff.mp hc).1 h).imp_right ?_
      rintro ⟨rfl, hd⟩
      exact ⟨c, hc, .inl ⟨rfl, hd⟩⟩
  | resumed id c callback answer hc hwake =>
      refine (owner_applyTurn (List.getElem?_eq_some_iff.mp hc).1 h).imp_right ?_
      rintro ⟨rfl, _⟩
      exact ⟨c, hc, .inr (by simp [Controller.callback_of_wakeUp? hwake])⟩
  | joined id t outcome hj =>
      rw [hj.tasks] at h
      rcases List.mem_or_eq_of_mem_set h with h | rfl
      · exact .inl ⟨task', h, rfl⟩
      · exact .inl ⟨t, List.mem_of_getElem? hj.task, rfl⟩

/-- What a step makes of a controller that has nothing under way: the container launches it or tells
it something, or it takes a message. -/
inductive Idles (s : System) (x : Stimulus) (i : Nat) (s' : System) (c' : Controller) : Prop
  | told {b : Controller} (messages : List Message)
    (hb : s.controllers[i]? = some b ∨ ∃ plan ticket, b = .launch plan ticket)
    (hc' : c' = b.told messages) (hm : ∀ y ∈ messages.filterMap Message.signal?, ¬y.Own)
    (hfree : ∀ task ∈ s'.tasks, task.owner ≠ i)
  | takes {b : Controller} (hx : x = .move (.take i)) (hb : s.controllers[i]? = some b)
    (hcan : b.canTake = true) (hc' : c' = (b.take i s.world).final s.tasks.length)
    (hfree : (b.take i s.world).deferred = none → ∀ task ∈ s'.tasks, task.owner ≠ i)

/-- A step that no callback takes part in lets a controller be that has nothing under way. -/
theorem Calm.controller_of_idle {i : Nat} {c' : Controller} (h : Calm s s')
    (hc' : s'.controllers[i]? = some c')
    (hidle : ∀ c, s.controllers[i]? = some c → c.callback = none) :
    s.controllers[i]? = some c' := by
  obtain ⟨b, hb, hn⟩ := h.exists_controller hc'
  have hsame : c' = b := hn.elim id (·.trans (Controller.alarm_of_idle (hidle b hb)))
  exact hsame ▸ hb

/-- The container launches a controller, or tells it something that it does not tell itself. -/
theorem Orderly.told_receive (ho : s.Orderly) {r : Request} {rest : List Request}
    (hi : s.container.inbox = r :: rest) {i : Nat} {c' : Controller}
    (hc' : s.receive.controllers[i]? = some c') :
    ∃ (b : Controller) (messages : List Message), c' = b.told messages ∧
      (s.controllers[i]? = some b ∨ ∃ plan ticket, b = .launch plan ticket) ∧
      ∀ y ∈ messages.filterMap Message.signal?, ¬y.Own := by
  have hsound := ho.sound s.mirrors_trial
  have hhears := (s.mirrors_trial.receive hi).2 i
  rw [hc'] at hhears
  obtain ⟨b, hb, rfl⟩ := Option.map_eq_some_iff.mp hhears.symm
  refine ⟨b, _, rfl, ?_, hsound.not_own⟩
  rw [List.getElem?_append] at hb
  split at hb
  · exact .inl hb
  · have hlaunched := List.mem_of_getElem? hb
    unfold launches at hlaunched
    split at hlaunched
    · split at hlaunched
      · exact .inr ⟨_, _, List.mem_singleton.mp hlaunched⟩
      · cases hlaunched
    · cases hlaunched

theorem Orderly.idles (ho : s.Orderly) (hs : Step s x s') {c' : Controller}
    (hc' : s'.controllers[i]? = some c')
    (hidle : ∀ c, s.controllers[i]? = some c → c.callback = none)
    (hfree : ∀ task ∈ s.tasks, task.owner ≠ i) : s.Idles x i s' c' := by
  have hfree' : (∀ b, s.controllers[i]? = some b → x = .move (.take i) →
      (b.take i s.world).deferred = none) → ∀ task ∈ s'.tasks, task.owner ≠ i := by
    rintro hd task ht rfl
    rcases hs.owner ht with ⟨task₀, h₀, he⟩ | ⟨b, hb, ⟨hx, hdeferred⟩ | hcallback⟩
    · exact hfree task₀ h₀ he.symm
    · simp [hd b hb hx] at hdeferred
    · simp [hidle b hb] at hcallback
  have hstill : x ≠ .move (.take i) → s.controllers[i]? = some c' → s.Idles x i s' c' :=
    fun hx hc => .told [] (.inl hc) (Controller.told_nil c').symm (by simp)
      (hfree' fun _ _ he => absurd he hx)
  cases hs with
  | calm hcalm hx =>
      refine .told [] (.inl (hcalm.controller_of_idle hc' hidle)) (Controller.told_nil c').symm
        (by simp) fun task ht he => ?_
      obtain ⟨task₀, h₀, howner⟩ := hcalm.owner ht
      exact hfree task₀ h₀ (howner.symm.trans he)
  | opened origin hst hu hw => exact hstill (by simp) (hu.controllers ▸ hc')
  | asked origin o requests w ha =>
      rw [(sends_sendAll { s with world := w } requests).controllers] at hc'
      exact hstill (by simp) hc'
  | received r rest hserving hi =>
      obtain ⟨b, messages, htold, hb, hown⟩ := ho.told_receive hi hc'
      exact .told messages hb htold hown (hfree' (by simp))
  | finished hst hq =>
      rw [(unmoved_finish s).controllers] at hc'
      exact hstill (by simp) hc'
  | took id c hc hcan =>
      have hid := (List.getElem?_eq_some_iff.mp hc).1
      rcases (applies_applyTurn hid).cases_controller hc' with ⟨rfl, rfl⟩ | ⟨hi, hc'⟩
      · exact .takes rfl hc hcan rfl fun hd =>
          hfree' fun b hb _ => Option.some.inj (hc.symm.trans hb) ▸ hd
      · exact hstill (by simpa using hi) hc'
  | resumed id c callback answer hc hwake =>
      have hid := (List.getElem?_eq_some_iff.mp hc).1
      rcases (applies_applyTurn hid).cases_controller hc' with ⟨rfl, _⟩ | ⟨_, hc'⟩
      · have hcallback := Controller.callback_of_wakeUp? hwake
        rw [hidle c hc] at hcallback
        cases hcallback
      · exact hstill (by simp) hc'
  | joined id t outcome hj =>
      have htold := told_one hj.controllers i
      rw [if_neg fun he => hfree t (List.mem_of_getElem? hj.task) he.symm, hc'] at htold
      exact hstill (by simp) htold.symm

/-! ## Whole runs -/

/-- Whoever is not under way and does not invoke `start` is not under way afterwards, or is on its
way out. -/
theorem Orderly.unbegun (ho : s.Orderly) (hs : Step s x s') {c' : Controller}
    (hc' : s'.controllers[i]? = some c') (hno : ∀ cells, ¬s.Invokes x i .start cells)
    (hfree : ∀ task ∈ s.tasks, task.owner ≠ i)
    (h : ∀ c, s.controllers[i]? = some c → c.Unbegun) :
    4 ≤ c'.state.phase ∨ (c'.Unbegun ∧ ∀ task ∈ s'.tasks, task.owner ≠ i) := by
  cases ho.idles hs hc' (fun c hc => (h c hc).idle) hfree with
  | @told b messages hb hc' hm hfree =>
      subst hc'
      refine .inr ⟨Controller.Unbegun.told ?_ hm, hfree⟩
      rcases hb with hb | ⟨plan, ticket, rfl⟩
      · exact h b hb
      · exact Controller.unbegun_launch plan ticket
  | @takes b hx hb hcan hc' hfree =>
      subst hc'
      refine ((h b hb).take hcan i s.tasks.length s.world fun hw hi hok =>
        hno _ (.start hx hb hcan hw hi hok)).imp_right ?_
      exact fun hu => ⟨hu.1, hfree hu.2⟩

/-- The tasks there are were left by controllers that are there. -/
theorem owner_lt_run (hx : ∀ x ∈ happened, x ≠ .cancel) :
    ∀ task ∈ (initial.run happened).tasks,
      task.owner < (initial.run happened).controllers.length := by
  refine run_induction (P := fun happened => ∀ task ∈ (initial.run happened).tasks,
    task.owner < (initial.run happened).controllers.length) ?_ ?_ hx
  · simp [initial, run]
  · intro happened x ho hs h task ht
    refine Nat.lt_of_lt_of_le ?_ (ho.supplying hs).length
    rcases hs.owner ht with ⟨task₀, h₀, he⟩ | ⟨b, hb, _⟩
    · exact he ▸ h task₀ h₀
    · exact (List.getElem?_eq_some_iff.mp hb).1

/-- Over a whole run, whoever did not invoke `start` has no callback under way. -/
theorem unbegun_run (hx : ∀ x ∈ happened, x ≠ .cancel)
    (hc : (initial.run happened).controllers[i]? = some c) (hno : ¬StartInvoked happened i) :
    4 ≤ c.state.phase ∨ c.Unbegun := by
  have hrun : ∀ {i : Nat} {c : Controller}, (initial.run happened).controllers[i]? = some c →
      ¬StartInvoked happened i → 4 ≤ c.state.phase ∨
        (c.Unbegun ∧ ∀ task ∈ (initial.run happened).tasks, task.owner ≠ i) := by
    refine run_induction (P := fun happened => (∀ x ∈ happened, x ≠ .cancel) →
      ∀ {i : Nat} {c : Controller}, (initial.run happened).controllers[i]? = some c →
        ¬StartInvoked happened i → 4 ≤ c.state.phase ∨
          (c.Unbegun ∧ ∀ task ∈ (initial.run happened).tasks, task.owner ≠ i)) ?_ ?_ hx hx
    · intro _ i c hc
      simp [initial, run] at hc
    · intro happened x ho hs h hx i c' hc' hno
      have hbefore : ∀ y ∈ happened, y ≠ .cancel := fun y hy => hx y (List.mem_append_left _ hy)
      rw [startInvoked_snoc, not_or, not_exists] at hno
      rcases hs.advances hc' with ⟨c, hc, ha⟩ | ⟨hlen, hw⟩
      · rcases h hbefore hc hno.1 with hphase | ⟨hu, hfree⟩
        · exact .inl (Nat.le_trans hphase ha.phase_le)
        · exact ho.unbegun hs hc' hno.2 hfree fun b hb => Option.some.inj (hc.symm.trans hb) ▸ hu
      · refine ho.unbegun hs hc' hno.2 (fun task ht he => ?_) fun b hb => ?_
        · exact absurd (he ▸ owner_lt_run hbefore task ht) (Nat.not_lt.mpr hlen)
        · simp [List.getElem?_eq_none hlen] at hb
  exact (hrun hc hno).imp_right And.left

/-- Only a service whose `start` was invoked has its `stop` invoked. -/
theorem Invokes.startInvoked {cells : Cells} (hx : ∀ x ∈ happened, x ≠ .cancel)
    (h : (initial.run happened).Invokes x i .stop cells) : StartInvoked happened i := by
  cases h with
  | stop he =>
      obtain ⟨c, -, hc, hcan, he, -⟩ := take_of_effects he
      by_contra hno
      rcases Controller.take_cases hcan i (initial.run happened).world with
        ⟨_, _, _, _, hnone, _⟩ | ⟨e, rest, next, hi, _, hm, _⟩
      · simp [hnone] at he
      · rcases unbegun_run hx hc hno with hphase | hu
        · generalize c.state = state at hm hphase
          generalize c.effects = effects at hm he
          generalize e.signal = x at hm
          cases hm <;> simp [State.phase] at he hphase
        · have hunstarted : e.signal ≠ .started := by
            intro heq
            refine hu.unstarted ?_
            rw [Controller.signals_cons hi]
            simp [Message.signal?, heq]
          have hearly := hu.early
          rw [hu.uninterruptible] at hm
          generalize c.state = state at hm hearly
          generalize c.effects = effects at hm he
          generalize e.signal = x at hm hunstarted
          cases hm <;> simp [State.phase] at he hearly hunstarted
          simp_all

end System

end ServiceHost
