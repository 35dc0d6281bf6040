import ServiceHost.Proofs.Spoilt.Systems
import ServiceHost.System.Moves

/-! # Moves of systems in which stops fail

The same moves are possible in two systems that agree up to how stops ended, and each keeps it so.
The one move that tells the systems apart is that of a watcher which logs that a stop failed: the
message it passes on is the same. -/

namespace ServiceHost

theorem forall₂_all {α : Type} {R : α → α → Prop} {l l' : List α} (h : List.Forall₂ R l l')
    {p : α → Bool} (hp : ∀ {x x'}, R x x' → p x' = p x) : l'.all p = l.all p := by
  induction h with
  | nil => rfl
  | cons hx _ ih => rw [List.all_cons, List.all_cons, hp hx, ih]

theorem rel_any {α : Type} {R : α → α → Prop} {o o' : Option α} (h : Option.Rel R o o')
    {p p' : α → Bool} (hp : ∀ {x x'}, R x x' → p' x' = p x) : o'.any p' = o.any p := by
  cases h with
  | none => rfl
  | some hx => exact hp hx

/-! ## Tasks -/

namespace Task.Spoils

variable {t t' : Task} (h : t.Spoils t')
include h

theorem owner : t'.owner = t.owner := by
  obtain ⟨-, -⟩ := h
  rfl

theorem watched : t'.watched = t.watched := by
  obtain ⟨-, -⟩ := h
  rfl

theorem overdue : t'.overdue = t.overdue := by
  obtain ⟨-, -⟩ := h
  rfl

theorem unwanted : t'.unwanted = t.unwanted := by
  obtain ⟨-, -⟩ := h
  rfl

theorem overdueText : t'.overdueText = t.overdueText := by
  obtain ⟨-, -⟩ := h
  rfl

theorem delay : t'.work.delay = t.work.delay := by
  obtain ⟨hw, -⟩ := h
  cases hw with
  | same => rfl
  | work _ hw => exact hw.ends.delay

theorem blocking : t'.work.blocking = t.work.blocking := by
  obtain ⟨hw, -⟩ := h
  cases hw with
  | same => rfl
  | work _ hw => exact hw.blocking

theorem canRun : t'.canRun = t.canRun := by
  obtain ⟨-, hs⟩ := h
  unfold Task.canRun
  dsimp only
  generalize t.state = state at hs
  cases hs <;> rfl

theorem isOver : t'.isOver = t.isOver := by
  obtain ⟨-, hs⟩ := h
  unfold Task.isOver
  dsimp only
  generalize t.state = state at hs
  cases hs <;> rfl

theorem withUnwanted : Task.Spoils { t with unwanted := true } { t' with unwanted := true } := by
  obtain ⟨hw, hs⟩ := h
  exact ⟨hw, hs⟩

theorem withOverdue (overdue : Bool) : Task.Spoils { t with overdue } { t' with overdue } := by
  obtain ⟨hw, hs⟩ := h
  exact ⟨hw, hs⟩

theorem unwatched : Task.Spoils { t with watched := false } { t' with watched := false } := by
  obtain ⟨hw, hs⟩ := h
  exact ⟨hw, hs⟩

theorem callOff : t.callOff.Spoils t'.callOff := by
  have hblocking := h.blocking
  obtain ⟨owner, service, phase, work, state, watched, overdue, unwanted⟩ := t
  obtain ⟨hw, hs⟩ := h
  dsimp only at hblocking
  refine ⟨hw, ?_⟩
  cases hs with
  | same =>
      simp only [Task.callOff, Task.isBusy, hblocking]
      exact .same _
  | failed hp failure => exact .failed hp failure

theorem alarm : t.alarm.Spoils t'.alarm := by
  obtain ⟨owner, service, phase, work, state, watched, overdue, unwanted⟩ := t
  obtain ⟨hw, hs⟩ := h
  refine ⟨hw, ?_⟩
  cases hs with
  | same => exact .same _
  | failed hp failure => exact .failed hp failure

/-- Work comes to its end at the same time. -/
theorem complete {w w' : World} (hw : w.Spoils w') :
    (t.complete w).1.Spoils (t'.complete w').1 ∧ (t.complete w).2.Spoils (t'.complete w').2 := by
  obtain ⟨owner, service, phase, ⟨⟨delay, ending⟩, blocking⟩, state, watched, overdue,
    unwanted⟩ := t
  obtain @⟨work', _, hwork, -⟩ := h
  cases hwork with
  | same => cases ending <;> exact ⟨⟨.same _, .same _⟩, hw.record (.same _) _⟩
  | work hp hspoils =>
      obtain ⟨⟨delay', ending'⟩, blocking'⟩ := work'
      obtain rfl : phase = .stop := hp
      obtain rfl : blocking' = blocking := hspoils.blocking
      rcases hspoils.ends with hsame | ⟨hdone, -⟩
      · cases hsame
        cases ending <;> exact ⟨⟨.same _, .same _⟩, hw.record (.same _) _⟩
      · obtain rfl : ending = .done := hdone
        cases ending' with
        | done => exact ⟨⟨.work rfl hspoils, .same _⟩, hw.record (.same _) _⟩
        | fail failure => exact ⟨⟨.work rfl hspoils, .failed rfl _⟩, hw.record .fail _⟩
        | panic panic => exact ⟨⟨.work rfl hspoils, .failed rfl _⟩, hw.record .panic _⟩

theorem run (id : Nat) {w w' : World} (hw : w.Spoils w') :
    (t.run id w).1.Spoils (t'.run id w').1 ∧ (t.run id w).2.Spoils (t'.run id w').2 := by
  have hdone := h.complete hw
  have hdelay := h.delay
  have hblocking := h.blocking
  obtain ⟨owner, service, phase, work, state, watched, overdue, unwanted⟩ := t
  obtain ⟨hwork, hs⟩ := h
  dsimp only at hdelay hblocking
  cases hs with
  | failed => exact ⟨⟨hwork, .failed ‹_› _⟩, hw⟩
  | same =>
      cases state with
      | queued =>
          simp only [Task.run, hdelay, hblocking]
          split
          · split
            · exact ⟨⟨hwork, .same _⟩, hw⟩
            · exact hdone
          · exact ⟨⟨hwork, .same _⟩, hw.setTimer _ _⟩
      | awake => exact hdone
      | asleep | ended | calledOff => exact ⟨⟨hwork, .same _⟩, hw⟩

omit h in
/-- Logging how a task ended. -/
theorem logOutcome (t : Task) (outcome : Except Failure Unit) {w w' : World} (hw : w.Spoils w') :
    (t.logOutcome outcome w).Spoils (t.logOutcome outcome w') := by
  unfold Task.logOutcome
  split
  · exact hw.log _ _
  · exact hw

/-- However a task ended, its controller is told the same. That a stop failed is logged. -/
theorem outcome? : Option.Rel (fun outcome outcome' => t'.event outcome' = t.event outcome ∧
    ∀ {w w' : World}, w.Spoils w' → (t.logOutcome outcome w).Spoils (t'.logOutcome outcome' w'))
    t.outcome? t'.outcome? := by
  obtain ⟨owner, service, phase, work, state, watched, overdue, unwanted⟩ := t
  obtain ⟨-, hs⟩ := h
  cases hs with
  | same =>
      cases state with
      | ended outcome => exact .some ⟨rfl, fun hw => logOutcome _ outcome hw⟩
      | _ => exact .none
  | failed hp failure =>
      obtain rfl : phase = .stop := hp
      exact .some ⟨rfl, fun hw => hw.failed service failure⟩

theorem outcome?_isSome : t'.outcome?.isSome = t.outcome?.isSome := by
  have houtcome := h.outcome?
  generalize t.outcome? = o, t'.outcome? = o' at houtcome
  cases houtcome <;> rfl

end Task.Spoils

namespace System.Spoils

variable {s s' : System}

/-! ## Turns -/

theorem callOff (h : s.Spoils s') (id : Nat) : (s.callOff id).Spoils (s'.callOff id) := by
  have htask := h.task? id
  unfold System.callOff
  generalize s.tasks[id]? = o, s'.tasks[id]? = o' at htask
  cases htask with
  | none => exact h
  | some ht => exact (h.setTask id ht.withUnwanted).wake _

theorem launchTask (h : s.Spoils s') (owner : Nat) {phase : Phase} {work work' : Completion}
    (hw : SpoilsLeft phase (some work) (some work')) :
    (s.launchTask owner phase work).Spoils (s'.launchTask owner phase work') := by
  have hcontroller := h.controller? owner
  unfold System.launchTask
  generalize s.controllers[owner]? = o, s'.controllers[owner]? = o' at hcontroller
  cases hcontroller with
  | none => exact h
  | @some c c' hc =>
      have htask : (Task.launch owner c.name phase work).Spoils
          (Task.launch owner c.name phase work') := ⟨hw, .same _⟩
      have hpending := h.setController owner (hc.withPending (some s.tasks.length))
      dsimp only
      rw [← h.tasks.length_eq, hc.name]
      have hadded := (hpending.withTasks (List.rel_append h.tasks (.cons htask .nil))).withWorld
        (h.world.setTimer gracePeriod (.watcher s.tasks.length))
      exact hadded.wakeAll _

theorem endController (h : s.Spoils s') (id : Nat) {c c' : Controller} (hc : c.Spoils c') :
    (s.endController id c).Spoils (s'.endController id c') := by
  obtain ⟨hconduct, hk⟩ := hc
  have hended : Controller.Spoils { c with ended := true, inbox := [], install := none }
      { c with
        ended := true, inbox := [], install := none
        plan := c.plan.withConduct _, callback := _ } := ⟨hconduct, hk⟩
  exact ((h.setController id hended).settleAll _ _).noticeEnd

/-- Work that is left goes to a task, if there is any. -/
theorem launchAll (h : s.Spoils s') (id : Nat) {deferred deferred' : Option (Phase × Completion)}
    (hd : SpoilsDeferred deferred deferred') :
    (deferred.toList.foldl (fun s (phase, work) => s.launchTask id phase work) s).Spoils
      (deferred'.toList.foldl (fun s (phase, work) => s.launchTask id phase work) s') := by
  cases hd with
  | same => exact h.foldl (fun h (_, work) => h.launchTask id (.same (some work))) _
  | work hw => exact h.launchTask id (.work rfl hw)

theorem applyTurn (h : s.Spoils s') (id : Nat) {t t' : Turn} (ht : t.Spoils t') :
    (s.applyTurn id t).Spoils (s'.applyTurn id t') := by
  obtain ⟨hw, hc, hr, hd⟩ := ht
  have htaken := (h.withWorld hw).setController id hc
  have hcalledOff := htaken.foldl (fun h a => h.callOff a) t.calledOff.toList
  have hsent := hcalledOff.sendAll hr
  have hlaunched := hsent.launchAll id hd
  have hreported := hlaunched.sendAll (Request.spoils_refl t.reported.toList)
  unfold System.applyTurn
  dsimp only
  rw [hc.ended]
  split
  · exact hreported.endController id hc
  · exact hreported

theorem take (h : s.Spoils s') (id : Nat) : (s.take id).Spoils (s'.take id) := by
  have hcontroller := h.controller? id
  unfold System.take
  generalize s.controllers[id]? = o, s'.controllers[id]? = o' at hcontroller
  cases hcontroller with
  | none => exact h
  | some hc => exact h.applyTurn id (hc.take h.world id)

theorem resume (h : s.Spoils s') (id : Nat) : (s.resume id).Spoils (s'.resume id) := by
  have hcontroller := h.controller? id
  unfold System.resume
  generalize s.controllers[id]? = o, s'.controllers[id]? = o' at hcontroller
  cases hcontroller with
  | none => exact h
  | some hc => exact h.applyTurn id (hc.resume h.world id)

theorem cancelController (h : s.Spoils s') (id : Nat) :
    (s.cancelController id).Spoils (s'.cancelController id) := by
  have hcontroller := h.controller? id
  unfold System.cancelController
  generalize s.controllers[id]? = o, s'.controllers[id]? = o' at hcontroller
  cases hcontroller with
  | none => exact h
  | some hc =>
      simp only [hc.cancelText]
      exact (h.log _ _).endController id hc

/-! ## Tasks -/

theorem runTask (h : s.Spoils s') (id : Nat) : (s.runTask id).Spoils (s'.runTask id) := by
  have htask := h.task? id
  unfold System.runTask
  generalize s.tasks[id]? = o, s'.tasks[id]? = o' at htask
  cases htask with
  | none => exact h
  | some ht =>
      obtain ⟨hrun, hworld⟩ := ht.run id h.world
      have hset := (h.withWorld hworld).setTask id hrun
      dsimp only
      rw [hrun.outcome?_isSome]
      split
      · exact (hset.wake _).noticeEnd
      · exact hset

theorem joinTask (h : s.Spoils s') (id : Nat) : (s.joinTask id).Spoils (s'.joinTask id) := by
  have htask := h.task? id
  unfold System.joinTask
  generalize s.tasks[id]? = o, s'.tasks[id]? = o' at htask
  cases htask with
  | none => exact h
  | @some t t' ht =>
      have houtcome := ht.outcome?
      dsimp only
      generalize t.outcome? = e, t'.outcome? = e' at houtcome
      cases houtcome with
      | none => exact h
      | @some outcome outcome' hsame =>
          obtain ⟨hevent, hlog⟩ := hsame
          have hjoined := (h.withWorld (hlog h.world)).setTask id ht.unwatched
          have hdelivery : (⟨t'.owner, .lifecycle (t'.event outcome')⟩ : Delivery) =
              ⟨t.owner, .lifecycle (t.event outcome)⟩ := by
            rw [ht.owner, hevent]
          dsimp only
          rw [hdelivery]
          exact (hjoined.deliver _).noticeEnd

theorem callOffTask (h : s.Spoils s') (id : Nat) :
    (s.callOffTask id).Spoils (s'.callOffTask id) := by
  have htask := h.task? id
  unfold System.callOffTask
  generalize s.tasks[id]? = o, s'.tasks[id]? = o' at htask
  cases htask with
  | none => exact h
  | some ht => exact (h.setTask id ht.callOff).noticeEnd

theorem warnOverdue (h : s.Spoils s') (id : Nat) :
    (s.warnOverdue id).Spoils (s'.warnOverdue id) := by
  have htask := h.task? id
  unfold System.warnOverdue
  generalize s.tasks[id]? = o, s'.tasks[id]? = o' at htask
  cases htask with
  | none => exact h
  | some ht =>
      simp only [ht.overdueText]
      exact (h.log _ _).setTask id (ht.withOverdue false)

/-! ## Moves -/

theorem isQuiet (h : s.Spoils s') : s'.isQuiet = s.isQuiet := by
  unfold System.isQuiet
  rw [forall₂_all h.controllers (·.ended), forall₂_all h.tasks (·.isOver)]

theorem canMove (h : s.Spoils s') (m : Move) : s'.canMove m = s.canMove m := by
  have hserving : s'.container.isServing = s.container.isServing := by
    rw [Container.isServing, Container.isServing, h.stage]
  cases m with
  | receive =>
      have hinbox := h.inbox
      simp only [System.canMove, hserving]
      generalize s.container.inbox = inbox, s'.container.inbox = inbox' at hinbox
      cases hinbox <;> rfl
  | force => simp only [System.canMove, hserving, h.cancelled]
  | finish =>
      have hended : s'.container.ended = s.container.ended := by rw [h.container]
      simp only [System.canMove, h.stage, hended, h.isQuiet]
  | take id => exact rel_any (h.controller? id) fun hc => hc.canTake
  | resume id => exact rel_any (h.controller? id) fun hc => hc.canResume h.world
  | cancel id =>
      simp only [System.canMove, h.cancelled]
      congr 1
      refine rel_any (h.controller? id) fun hc => ?_
      rw [hc.ended, ← Option.not_isSome, hc.callback_isSome, Option.not_isSome]
  | run id => exact rel_any (h.task? id) fun ht => ht.canRun
  | join id =>
      refine rel_any (h.task? id) fun ht => ?_
      rw [ht.watched, ht.outcome?_isSome]
  | callOff id =>
      refine rel_any (h.task? id) fun ht => ?_
      rw [ht.watched, ht.unwanted, h.cancelled]
  | warn id =>
      refine rel_any (h.task? id) fun ht => ?_
      rw [ht.watched, ht.overdue]

/-- A move is made alike. -/
theorem perform (h : s.Spoils s') (m : Move) : (s.perform m).Spoils (s'.perform m) := by
  unfold System.perform
  rw [h.canMove m]
  split
  · cases m with
    | receive => exact h.receive
    | force => exact h.shutDown
    | finish => exact h.finish
    | take id => exact h.take id
    | resume id => exact h.resume id
    | cancel id => exact h.cancelController id
    | run id => exact h.runTask id
    | join id => exact h.joinTask id
    | callOff id => exact h.callOffTask id
    | warn id => exact h.warnOverdue id
  · exact h

/-! ## Time and cancellation -/

theorem alarm (h : s.Spoils s') (a : Actor) : (s.alarm a).Spoils (s'.alarm a) := by
  unfold System.alarm
  refine System.Spoils.wake ?_ a
  cases a with
  | container => exact h
  | controller id =>
      exact h.withControllers (forall₂_modify h.controllers id fun hc => hc.alarm)
  | task id => exact h.withTasks (forall₂_modify h.tasks id fun ht => ht.alarm)
  | watcher id => exact h.withTasks (forall₂_modify h.tasks id fun ht => ht.withOverdue true)

theorem elapse (h : s.Spoils s') (t : Timer) : (s.elapse t).Spoils (s'.elapse t) := by
  unfold System.elapse
  rw [h.world.timers, h.world.clock]
  split
  · exact (h.withWorld (h.world.moveTo _ _ rfl)).alarm _
  · exact h

theorem cancel (h : s.Spoils s') : s.cancel.Spoils s'.cancel := by
  have hcancelled : System.Spoils { s with cancelled := true } { s' with cancelled := true } := by
    obtain ⟨hw, hc, hcs, hts⟩ := h
    exact ⟨hw, hc, hcs, hts⟩
  unfold System.cancel
  rw [h.controllers.length_eq, h.tasks.length_eq]
  exact hcancelled.wakeAll _

theorem giveUp (h : s.Spoils s') : s.giveUp.Spoils s'.giveUp := by
  unfold System.giveUp
  rw [h.cancelled]
  split
  · obtain ⟨hw, hc, hcs, hts⟩ := h
    exact ⟨hw, hc, hcs, hts⟩
  · exact h

end System.Spoils

end ServiceHost
