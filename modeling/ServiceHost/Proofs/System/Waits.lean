import ServiceHost.Proofs.System.Timers

/-! # Nothing is waited for in vain

Whoever waits for a timer has set it, and a callback that waits for an answer has asked the
container for it. There is nothing to call off in a task that nobody watches any more. -/

namespace ServiceHost

namespace System

variable {s s' : System} {x : Stimulus} {i : Nat}

/-! ## Tasks -/

/-- A controller comes to leave a task, in taking a message or in going on with a callback. -/
def LeavesWork (s : System) (x : Stimulus) : Prop :=
  ∃ id c, s.controllers[id]? = some c ∧
    ((x = .move (.take id) ∧ c.canTake = true ∧ (c.take id s.world).deferred ≠ none) ∨
      (x = .move (.resume id) ∧ c.canResume s.world = true))

/-- What befalls a task when something happens. -/
inductive TaskBefalls (s : System) (x : Stimulus) (i : Nat) : Option Task → Option Task → Prop
  | none : TaskBefalls s x i none none
  | kept {t t' : Task} (hs : t'.state = t.state) (hwork : t'.work = t.work)
    (hw : t'.watched = t.watched) : TaskBefalls s x i (some t) (some t')
  | alarmed (t : Task) {timer : Timer} (hx : x = .elapse timer) (hset : timer ∈ s.world.timers)
    (hwakes : timer.wakes = .task i) : TaskBefalls s x i (some t) (some t.alarm)
  | ran (t : Task) (hx : x = .move (.run i)) (ht : s.tasks[i]? = some t) (hcan : t.canRun = true) :
    TaskBefalls s x i (some t) (some (t.run i s.world).1)
  | joined (t : Task) {outcome : Except Failure Unit} (hw : t.watched = true)
    (ho : t.outcome? = some outcome) :
    TaskBefalls s x i (some t) (some { t with watched := false })
  | calledOff (t : Task) (hx : x = .move (.callOff i)) (hw : t.watched = true)
    (hoff : t.unwanted = true ∨ s.cancelled = true) : TaskBefalls s x i (some t) (some t.callOff)
  | launched {t' : Task} (hl : s.LeavesWork x) (hs : t'.state = .queued) (hw : t'.watched = true) :
    TaskBefalls s x i none (some t')

theorem TaskBefalls.refl (t : Option Task) : s.TaskBefalls x i t t := by
  cases t with
  | none => exact .none
  | some t => exact .kept rfl rfl rfl

/-- Each task is kept but for what it is told. -/
theorem TaskBefalls.of_map {f : Task → Task} (t : Option Task)
    (hs : ∀ t, (f t).state = t.state) (hwork : ∀ t, (f t).work = t.work)
    (hw : ∀ t, (f t).watched = t.watched) : s.TaskBefalls x i t (t.map f) := by
  cases t with
  | none => exact .none
  | some t => exact .kept (hs t) (hwork t) (hw t)

/-- One task is replaced. -/
theorem TaskBefalls.of_set {id : Nat} {t t' : Task} (ht : s.tasks[id]? = some t)
    (h : i = id → s.TaskBefalls x i (some t) (some t')) :
    s.TaskBefalls x i s.tasks[i]? (s.tasks.set id t')[i]? := by
  rw [List.getElem?_set]
  split
  · next hi =>
      subst hi
      rw [if_pos (List.getElem?_eq_some_iff.mp ht).1, ht]
      exact h rfl
  · exact .refl _

theorem alarm_tasks (s : System) (a : Actor) (i : Nat) : (s.alarm a).tasks[i]? =
    s.tasks[i]?.map fun t =>
      if a = .task i then t.alarm else if a = .watcher i then t.graceOver else t := by
  cases a with
  | container | controller id => simp [alarm]
  | task id | watcher id => simp [alarm, List.getElem?_modify]

theorem taskBefalls_elapse (s : System) (timer : Timer) (i : Nat) :
    s.TaskBefalls (.elapse timer) i s.tasks[i]? (s.elapse timer).tasks[i]? := by
  unfold elapse
  split
  · next hset =>
      rw [alarm_tasks]
      cases s.tasks[i]? with
      | none => exact .none
      | some t =>
          rw [Option.map_some]
          split
          · next hwakes => exact .alarmed t rfl hset hwakes
          · split
            · exact .kept rfl rfl rfl
            · exact .kept rfl rfl rfl
  · exact .refl _

theorem taskBefalls_applyTurn {id : Nat} {t : Turn} (hid : id < s.controllers.length)
    (hl : t.deferred ≠ none → s.LeavesWork x) (i : Nat) :
    s.TaskBefalls x i s.tasks[i]? (s.applyTurn id t).tasks[i]? := by
  rw [(applies_applyTurn hid).tasks]
  split
  · next hi =>
      rw [List.getElem?_eq_none (Nat.le_of_eq hi.symm)]
      cases hd : t.deferred with
      | none => exact .none
      | some d => exact .launched (hl (by simp [hd])) rfl rfl
  · exact .of_map _ (fun t => by split <;> rfl) (fun t => by split <;> rfl)
      fun t => by split <;> rfl

theorem start_tasks (s : System) (origin : Origin) :
    (s.operate origin .start).2.tasks = s.tasks := by
  rcases s.operate_start_cases origin with heq | ⟨_, line, heq⟩ <;> rw [heq]
  rw [wake_tasks]
  rfl

theorem taskBefalls_apply (s : System) (x : Stimulus) (i : Nat) :
    s.TaskBefalls x i s.tasks[i]? (s.apply x).tasks[i]? := by
  have hsame : ∀ {s' : System}, s'.tasks = s.tasks →
      s.TaskBefalls x i s.tasks[i]? s'.tasks[i]? := fun h => h ▸ .refl _
  cases x with
  | elapse timer => exact taskBefalls_elapse s timer i
  | passOver | wait => exact .refl _
  | cancel => exact hsame (unmoved_cancel s).tasks
  | log level message => exact hsame rfl
  | giveUp => exact hsame (unmoved_giveUp s).tasks
  | request origin o =>
      by_cases ho : o = .start
      · subst ho
        exact hsame (start_tasks s origin)
      · exact hsame (lodges_operate s origin ho).tasks
  | move m =>
      show s.TaskBefalls _ i _ (s.perform m).tasks[i]?
      unfold perform
      split
      · next hcan =>
          cases m with
          | receive => exact hsame (spares_receive s).tasks
          | force => exact hsame (spares_shutDown s).tasks
          | finish => exact hsame (spares_finish s).tasks
          | take id =>
              obtain ⟨c, hc, htake⟩ := (Option.any_eq_true _ _).mp hcan
              simp only [performNow, take, hc]
              exact taskBefalls_applyTurn (List.getElem?_eq_some_iff.mp hc).1
                (fun hd => ⟨id, c, hc, .inl ⟨rfl, htake, hd⟩⟩) i
          | resume id =>
              obtain ⟨c, hc, hresume⟩ := (Option.any_eq_true _ _).mp hcan
              simp only [performNow, resume, hc]
              exact taskBefalls_applyTurn (List.getElem?_eq_some_iff.mp hc).1
                (fun _ => ⟨id, c, hc, .inr ⟨rfl, hresume⟩⟩) i
          | cancel id =>
              refine hsame ?_
              simp only [performNow, cancelController]
              split
              · rfl
              · exact ((spares_log s _ _).trans (spares_endController _ _ _)).tasks
          | run id =>
              obtain ⟨t, ht, hrun⟩ := (Option.any_eq_true _ _).mp hcan
              have hran : (s.runTask id).tasks = s.tasks.set id (t.run id s.world).1 := by
                simp only [runTask, ht]
                split
                · rw [(unmoved_noticeEnd _).tasks, wake_tasks]
                  rfl
                · rfl
              rw [show s.performNow (.run id) = s.runTask id from rfl, hran]
              exact .of_set ht fun hi => hi ▸ .ran t rfl (hi ▸ ht) hrun
          | join id =>
              obtain ⟨t, ht, hjoin⟩ := (Option.any_eq_true _ _).mp hcan
              obtain ⟨hw, ho⟩ := Bool.and_eq_true_iff.mp hjoin
              obtain ⟨outcome, ho⟩ := Option.isSome_iff_exists.mp ho
              rw [show s.performNow (.join id) = s.joinTask id from rfl,
                (joins_joinTask ht hw ho).tasks]
              exact .of_set ht fun _ => .joined t hw ho
          | callOff id =>
              obtain ⟨t, ht, hoff⟩ := (Option.any_eq_true _ _).mp hcan
              simp only [performNow, callOffTask, ht, (unmoved_noticeEnd _).tasks]
              obtain ⟨hw, hoff⟩ := Bool.and_eq_true_iff.mp hoff
              exact .of_set ht fun hi => .calledOff t (hi ▸ rfl) hw (Bool.or_eq_true_iff.mp hoff)
          | warn id =>
              obtain ⟨t, ht, -⟩ := (Option.any_eq_true _ _).mp hcan
              simp only [performNow, warnOverdue, ht]
              exact .of_set ht fun _ => .kept rfl rfl rfl
      · exact .refl _

/-! ## Answers that are waited for -/

theorem mem_inbox_receive {r request : Request} {rest : List Request}
    (hi : s.container.inbox = request :: rest) (hr : r ∈ s.receive.container.inbox) :
    r ∈ s.container.inbox := by
  rw [receive_eq hi] at hr
  dsimp only at hr
  split at hr
  · rw [(shutDown_closed _).2] at hr
    contradiction
  · rw [process_inbox] at hr
    exact hi ▸ List.mem_cons_of_mem request hr

/-- What comes before the container in a step has a promise that was made in it. -/
theorem Happens.mem_inbox (hs : Happens s x s') {r : Request} (hr : r ∈ s'.container.inbox) :
    r ∈ s.container.inbox ∨ ∀ k, r.ticket? = some k → s.world.status k = none := by
  have hsame : s'.container.inbox = s.container.inbox → r ∈ s.container.inbox := fun h => h ▸ hr
  have hsent : ∀ {l : List Request}, s'.container = s.container.sent l →
      r ∈ s.container.inbox ∨ r ∈ l := by
    intro l hc
    rw [hc, Container.sent] at hr
    split at hr
    · exact List.mem_append.mp hr
    · exact .inl hr
  have hturn : ∀ {id : Nat} {c : Controller} {t : Turn}, s.controllers[id]? = some c →
      t.Pays s.world c → s' = s.applyTurn id t →
      r ∈ s.container.inbox ∨ ∀ k, r.ticket? = some k → s.world.status k = none := by
    intro id c t hc ht happly
    have hcontainer := (applies_applyTurn (t := t) (List.getElem?_eq_some_iff.mp hc).1).container
    refine (hsent (happly ▸ hcontainer)).imp_right fun hnew k hk => ?_
    obtain ⟨w, hsettles, hasked⟩ := ht.asks
    have hmem := List.mem_filterMap.mpr ⟨r, hnew, hk⟩
    rw [List.filterMap_append, ht.reported, List.append_nil] at hmem
    rw [World.status_eq_none, ← hsettles.length]
    exact (hasked.of_mem hmem).1
  cases hs with
  | step hs =>
      cases hs with
      | calm hcalm => exact .inl (hsame (congrArg Container.inbox hcalm.container))
      | opened origin hst hu => exact .inl (hsame (hu.container ▸ rfl))
      | asked origin o requests w ha =>
          refine (hsent (sends_sendAll { s with world := w } requests).container).imp_right
            fun hnew k hk => ?_
          rw [World.status_eq_none]
          exact (ha.of_mem (List.mem_filterMap.mpr ⟨r, hnew, hk⟩)).1
      | received request rest hserving hi => exact .inl (mem_inbox_receive hi hr)
      | finished hst hq => exact .inl (hsame ((unmoved_finish s).container ▸ rfl))
      | took id c hc hcan => exact hturn hc (Turn.pays_take hcan id s.world) rfl
      | resumed id c callback answer hc hwake => exact hturn hc (Turn.pays_resume hwake id) rfl
      | joined id t outcome hj => exact .inl (hsame (congrArg Container.inbox hj.container))
  | obeyed hs =>
      cases hs with
      | told => exact .inl (hsame (congrArg Container.inbox (unmoved_cancel s).container))
      | forced hx hs =>
          rw [(shutDown_closed s).2] at hr
          contradiction
      | ended id c hx hc hlive hfree =>
          exact .inl (hsame (congrArg Container.inbox (endController_container _ id c)))
      | calledOff id t hx ht hw =>
          exact .inl (hsame (congrArg Container.inbox (callOffTask_container s id)))

/-- A controller has the promise made to an installer if it had it before, or the container took
the request. -/
theorem Befalls.install {c' : Controller} {k : Ticket} (hb : s.Befalls x i c')
    (hk : c'.install = some k) : (∃ c, s.controllers[i]? = some c ∧ c.install = some k) ∨
      ∃ plan, .install plan k ∈ s.container.inbox := by
  cases hb with
  | told messages hc h =>
      rw [h, Controller.told_install] at hk
      exact .inl ⟨_, hc, hk⟩
  | alarmed hc h =>
      rw [h] at hk
      exact .inl ⟨_, hc, hk⟩
  | took hx hc hcan h =>
      rw [h] at hk
      exact .inl ⟨_, hc, (Turn.pays_take hcan i s.world).install (Turn.final_install hk)⟩
  | resumed hx hc hwake h =>
      rw [h] at hk
      exact .inl ⟨_, hc, (Turn.pays_resume hwake i).install (Turn.final_install hk)⟩
  | launched messages hx hi h =>
      rw [h, Controller.told_install] at hk
      obtain rfl := Option.some.inj hk
      exact .inr ⟨_, by rw [hi]; exact List.mem_cons_self⟩
  | ended hc hlive hfree h =>
      rw [h] at hk
      contradiction

/-- A promise that was made, but not to an installer. -/
structure Inquires (s : System) (k : Ticket) : Prop where
  made : s.world.status k ≠ none
  asked : ∀ plan, .install plan k ∉ s.container.inbox
  apart : ¬s.Installs k

theorem Inquires.happens {k : Ticket} (h : s.Inquires k) (hs : Happens s x s')
    (hl : s.Lets s') : s'.Inquires k where
  made := by
    obtain ⟨made, gone, -, hc⟩ := hl
    have hmade := h.made
    rw [Ne, World.status_eq_none] at hmade ⊢
    rw [hc.length]
    omega
  asked plan hmem := by
    rcases hs.mem_inbox hmem with hmem | hnew
    · exact h.asked plan hmem
    · exact h.made (hnew k rfl)
  apart := by
    rintro ⟨i, c', hc', hk⟩
    rcases (hs.befalls hc').install hk with ⟨c, hc, hk⟩ | ⟨plan, hmem⟩
    · exact h.apart ⟨i, c, hc, hk⟩
    · exact h.asked plan hmem

theorem Accounted.of_install (h : s.Accounted) {k : Ticket} (hk : s.Installs k) :
    s.world.status k = some none := by
  obtain ⟨i, c, hc, hinstall⟩ := hk
  refine h.mem_hands.mp (List.mem_append_right _ ?_)
  exact List.mem_filterMap.mpr ⟨c, List.mem_of_getElem? hc, hinstall⟩

theorem Accounted.of_ticket (h : s.Accounted) {r : Request} {k : Ticket}
    (hr : r ∈ s.container.inbox) (hk : r.ticket? = some k) : s.world.status k = some none := by
  have hmem : k ∈ s.container.tickets := List.mem_filterMap.mpr ⟨r, hr, hk⟩
  refine h.mem_hands.mp ?_
  simp only [hands, List.mem_append]
  exact .inl (.inl (.inl hmem))

/-- A promise that comes with a question of a callback. -/
theorem inquires_applyTurn {id : Nat} {c : Controller} {t : Turn} {r : Request} {k : Ticket}
    (hs : Happens s x (s.applyTurn id t)) (h : s.Accounted) (hc : s.controllers[id]? = some c)
    (ht : t.Pays s.world c) (hr : r ∈ t.requests) (hk : r.ticket? = some k)
    (hno : ∀ plan, r ≠ .install plan k) : (s.applyTurn id t).Inquires k := by
  obtain ⟨w, hsettles, hasked⟩ := ht.asks
  have hmem := List.mem_filterMap.mpr ⟨r, hr, hk⟩
  have hnew : s.world.status k = none := by
    rw [World.status_eq_none, ← hsettles.length]
    exact (hasked.of_mem hmem).1
  have hold : s.world.status k ≠ some none := by simp [hnew]
  refine ⟨?_, fun plan hinbox => ?_, ?_⟩
  · have hmade : t.world.status k ≠ none := by simp [(hasked.of_mem hmem).2]
    rw [Ne, World.status_eq_none] at hmade ⊢
    rwa [(settles_applyTurn s id t).length]
  · rw [(applies_applyTurn (List.getElem?_eq_some_iff.mp hc).1).container, Container.sent] at hinbox
    split at hinbox
    · rcases List.mem_append.mp hinbox with hinbox | hinbox
      · exact hold (h.of_ticket hinbox rfl)
      · rcases List.mem_append.mp hinbox with hinbox | hinbox
        · exact hno plan (hasked.eq_of_ticket hr hinbox hk rfl)
        · have hreported : k ∈ t.reported.toList.filterMap Request.ticket? :=
            List.mem_filterMap.mpr ⟨_, hinbox, rfl⟩
          rw [ht.reported] at hreported
          contradiction
    · exact hold (h.of_ticket hinbox rfl)
  · rintro ⟨i, c', hc', hinstall⟩
    rcases (hs.befalls hc').install hinstall with ⟨c, hc, hinstall⟩ | ⟨plan, hinbox⟩
    · exact hold (h.of_install ⟨i, c, hc, hinstall⟩)
    · exact hold (h.of_ticket hinbox rfl)

/-! ## Nothing is waited for in vain -/

/-- Whoever waits for a timer has set it, a callback that waits for an answer has asked for it, and
there is nothing to call off in a task nobody watches. -/
structure WaitsBacked (s : System) : Prop where
  timers : ∀ {i : Nat} {c : Controller} {callback : Callback}, s.controllers[i]? = some c →
    c.callback = some callback → callback.wait = .timer →
    ∃ timer ∈ s.world.timers, timer.wakes = .controller i
  answers : ∀ {i : Nat} {c : Controller} {callback : Callback} {k : Ticket} {awaited : Awaited},
    s.controllers[i]? = some c → c.callback = some callback →
    callback.wait = .answer k awaited → s.Inquires k
  tasks : ∀ {i : Nat} {t : Task}, s.tasks[i]? = some t → t.state = .asleep →
    ∃ timer ∈ s.world.timers, timer.wakes = .task i
  left : ∀ {i : Nat} {t : Task}, s.tasks[i]? = some t → t.watched = false → t.Unstoppable

theorem elapse_controllers (timer : Timer) (i : Nat) :
    (s.elapse timer).controllers[i]? = s.controllers[i]?.map fun c =>
      if timer ∈ s.world.timers ∧ timer.wakes = .controller i then c.alarm else c := by
  unfold elapse
  split
  · next hset =>
      cases hwakes : timer.wakes with
      | controller id => simp [alarm, hset, List.getElem?_modify]
      | container | task id | watcher id => simp [alarm]
  · next hset => simp [hset]

theorem Controller.alarm_wait {c : Controller} {callback : Callback}
    (h : c.alarm.callback = some callback) : callback.wait ≠ .timer ∧
      (callback.wait = .elapsed ∨ c.callback = some callback) := by
  obtain ⟨callback', hc, rfl⟩ := Option.map_eq_some_iff.mp h
  split
  · exact ⟨by simp, .inl rfl⟩
  · next hwait => exact ⟨hwait, .inr hc⟩

/-- A callback that is suspended was so before, or its timer went off, or it is suspended in this
very step, in a turn that made sure of what it waits for. -/
theorem Befalls.suspended {c' : Controller} {callback : Callback} (hb : s.Befalls x i c')
    (hcallback : c'.callback = some callback) :
    (∃ c, s.controllers[i]? = some c ∧ c.callback = some callback) ∨ callback.wait = .elapsed ∨
      ∃ c t, s.controllers[i]? = some c ∧ t.Pays s.world c ∧ t.Poised i s.world ∧
        t.controller.callback = some callback ∧ s.apply x = s.applyTurn i t := by
  cases hb with
  | told messages hc h =>
      rw [h, Controller.told_callback] at hcallback
      exact .inl ⟨_, hc, hcallback⟩
  | alarmed hc h =>
      rw [h] at hcallback
      rcases (Controller.alarm_wait hcallback).2 with hwait | hsame
      · exact .inr (.inl hwait)
      · exact .inl ⟨_, hc, hsame⟩
  | took hx hc hcan h =>
      subst hx
      rw [h, Turn.final_callback] at hcallback
      exact .inr (.inr ⟨_, _, hc, Turn.pays_take hcan i s.world, Controller.poised_take hcan i s.world,
        hcallback, apply_take hc hcan⟩)
  | resumed hx hc hwake h =>
      subst hx
      rw [h, Turn.final_callback] at hcallback
      exact .inr (.inr ⟨_, _, hc, Turn.pays_resume hwake i, Controller.poised_resume hwake i,
        hcallback, apply_resume hc (Option.isSome_iff_exists.mpr ⟨_, hwake⟩)⟩)
  | launched messages hx hi h =>
      rw [h, Controller.told_callback] at hcallback
      contradiction
  | ended hc hlive hfree h =>
      rw [h] at hcallback
      exact absurd (hfree.symm.trans hcallback) (by simp)

/-- A timer somebody waits for is still set, or has just gone off. -/
theorem timer_apply {timer : Timer} (h : timer ∈ s.world.timers) :
    timer ∈ (s.apply x).world.timers ∨ x = .elapse timer := by
  by_cases hx : ∃ timer', x = .elapse timer'
  · obtain ⟨timer', rfl⟩ := hx
    by_cases heq : timer = timer'
    · exact .inr (heq ▸ rfl)
    · refine .inl ?_
      show timer ∈ (s.elapse timer').world.timers
      rw [elapse_timers]
      exact (List.mem_erase_of_ne heq).mpr h
  · exact .inl (timers_apply s (fun timer' h => hx ⟨timer', h⟩) h)

theorem WaitsBacked.timers_step (h : s.WaitsBacked) {c' : Controller} {callback : Callback}
    (hc' : (s.apply x).controllers[i]? = some c') (hcallback : c'.callback = some callback)
    (hwait : callback.wait = .timer) :
    ∃ timer ∈ (s.apply x).world.timers, timer.wakes = .controller i := by
  rcases ((happens_apply s x).befalls hc').suspended hcallback with
    ⟨c, hc, hsame⟩ | helapsed | ⟨c, t, hc, -, hpoised, hturn, happly⟩
  · obtain ⟨timer, hmem, hwakes⟩ := h.timers hc hsame hwait
    rcases timer_apply (x := x) hmem with hset | rfl
    · exact ⟨timer, hset, hwakes⟩
    · rw [show (s.apply (.elapse timer)) = s.elapse timer from rfl, elapse_controllers, hc,
        Option.map_some, if_pos ⟨hmem, hwakes⟩, Option.some.injEq] at hc'
      rw [← hc'] at hcallback
      exact absurd hwait (Controller.alarm_wait hcallback).1
  · rw [hwait] at helapsed
    contradiction
  · have hbacked := hpoised.waits hturn
    rw [hwait] at hbacked
    obtain ⟨timer, hmem, hwakes⟩ := hbacked
    exact ⟨timer, by rw [happly]; exact timers_applyTurn s i t hmem, hwakes⟩

theorem WaitsBacked.answers_step (h : s.WaitsBacked) (ha : s.Accounted) (hu : s.WellFormed)
    {c' : Controller} {callback : Callback} {k : Ticket} {awaited : Awaited}
    (hc' : (s.apply x).controllers[i]? = some c') (hcallback : c'.callback = some callback)
    (hwait : callback.wait = .answer k awaited) : (s.apply x).Inquires k := by
  have hs := happens_apply s x
  rcases (hs.befalls hc').suspended hcallback with
    ⟨c, hc, hsame⟩ | helapsed | ⟨c, t, hc, hpays, hpoised, hturn, happly⟩
  · exact (h.answers hc hsame hwait).happens hs (hs.lets ha hu)
  · rw [hwait] at helapsed
    contradiction
  · have hbacked := hpoised.waits hturn
    rw [hwait] at hbacked
    rw [happly] at hs ⊢
    refine inquires_applyTurn hs ha hc hpays hbacked ?_ fun plan hplan => ?_
    · cases awaited <;> rfl
    · cases awaited <;> cases hplan

theorem done_of_outcome {t : Task} {outcome : Except Failure Unit}
    (h : t.outcome? = some outcome) : t.Done := by
  unfold Task.outcome? at h
  unfold Task.Done
  split at h
  · next hstate => rw [hstate]; trivial
  · contradiction

theorem asleep_of_callOff {t : Task} (h : t.callOff.state = .asleep) : t.state = .asleep := by
  unfold Task.callOff at h
  dsimp only at h
  split at h
  · contradiction
  · split at h
    · exact h
    · contradiction

theorem apply_run_world {t : Task} (ht : s.tasks[i]? = some t) (h : t.canRun = true) :
    (s.apply (.move (.run i))).world = (t.run i s.world).2 := by
  have hcan : s.canMove (.run i) = true := by simp [canMove, ht, h]
  simp only [apply, perform, hcan, if_true, performNow, runTask, ht]
  split
  · rw [noticeEnd_world, wake_world]
    rfl
  · rfl

theorem WaitsBacked.tasks_step (h : s.WaitsBacked) {t' : Task}
    (ht' : (s.apply x).tasks[i]? = some t') (hstate : t'.state = .asleep) :
    ∃ timer ∈ (s.apply x).world.timers, timer.wakes = .task i := by
  have hb := taskBefalls_apply s x i
  rw [ht'] at hb
  generalize ht : s.tasks[i]? = o at hb
  cases hb with
  | kept hs hwork hw =>
      obtain ⟨timer, hmem, hwakes⟩ := h.tasks ht (hs.symm.trans hstate)
      rcases timer_apply (x := x) hmem with hset | rfl
      · exact ⟨timer, hset, hwakes⟩
      · have halarm : (s.elapse timer).tasks[i]? = some t' := ht'
        rw [elapse, if_pos hmem, alarm_tasks, hwakes] at halarm
        simp only [ht, Option.map_some, if_true, Option.some.injEq] at halarm
        have hawake : t'.state = .awake := by
          rw [← halarm, Task.alarm, ← hs, hstate]
        rw [hawake] at hstate
        contradiction
  | alarmed t hx hset hwakes =>
      rw [Task.alarm] at hstate
      split at hstate
      · contradiction
      · next hno => exact absurd hstate hno
  | ran t hx ht hcan =>
      obtain ⟨timer, hmem, hwakes⟩ := (run_timers t i s.world).2 hcan hstate
      exact ⟨timer, by rw [hx, apply_run_world ht hcan]; exact hmem, hwakes⟩
  | joined t hw ho =>
      have hdone := done_of_outcome ho
      have hasleep : t.state = .asleep := hstate
      rw [Task.Done, hasleep] at hdone
      exact hdone.elim
  | calledOff t hx hw hoff =>
      obtain ⟨timer, hmem, hwakes⟩ := h.tasks ht (asleep_of_callOff hstate)
      subst hx
      exact ⟨timer, (timer_apply hmem).resolve_right (by simp), hwakes⟩
  | launched hl hs hw =>
      rw [hs] at hstate
      contradiction

theorem WaitsBacked.left_step (h : s.WaitsBacked) {t' : Task}
    (ht' : (s.apply x).tasks[i]? = some t') (hw' : t'.watched = false) : t'.Unstoppable := by
  have hb := taskBefalls_apply s x i
  rw [ht'] at hb
  generalize ht : s.tasks[i]? = o at hb
  cases hb with
  | kept hs hwork hw => exact (h.left ht (hw.symm.trans hw')).of_same hs hwork
  | alarmed t => exact (h.left ht hw').alarm
  | ran t =>
      have hw : t.watched = false := (t.run_watched i s.world).symm.trans hw'
      exact (h.left ht hw).run i s.world
  | joined t hw ho => exact .inl (done_of_outcome ho)
  | calledOff t => exact t.unstoppable_callOff
  | launched hl hs hw =>
      rw [hw] at hw'
      contradiction

theorem WaitsBacked.apply (h : s.WaitsBacked) (ha : s.Accounted) (hu : s.WellFormed) :
    (s.apply x).WaitsBacked :=
  ⟨h.timers_step, h.answers_step ha hu, h.tasks_step, h.left_step⟩

theorem waitsBacked_initial : initial.WaitsBacked := by
  constructor <;> simp [initial]

/-- Whatever happens, nothing is waited for in vain. -/
theorem waitsBacked_run (happened : List Stimulus) : (initial.run happened).WaitsBacked := by
  induction happened using List.reverseRecOn with
  | nil => exact waitsBacked_initial
  | append_singleton happened x ih =>
      rw [run_append]
      exact ih.apply (accounted_run happened) (wellFormed_run happened)

end System

end ServiceHost
