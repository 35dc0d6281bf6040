import ServiceHost.Proofs.System.Admission

/-! # What a turn waits for

When a callback comes to wait, its timer is set, or the container was asked. A timer stays set until
it goes off. -/

namespace ServiceHost

/-- What a callback of a controller waits for is under way: the timer is set, or the container was
asked. -/
def Wait.Backed (id : Nat) (timers : List Timer) (requests : List Request) : Wait → Prop
  | .timer => ∃ timer ∈ timers, timer.wakes = .controller id
  | .elapsed => False
  | .answer k awaited => awaited.request k ∈ requests

theorem Wait.Backed.mono {id : Nat} {timers timers' : List Timer} {l l' : List Request}
    {wait : Wait} (h : wait.Backed id timers l) (ht : timers ⊆ timers') (hl : l ⊆ l') :
    wait.Backed id timers' l' := by
  cases wait with
  | timer =>
      obtain ⟨timer, hmem, hwakes⟩ := h
      exact ⟨timer, ht hmem, hwakes⟩
  | elapsed => exact h
  | answer k awaited => exact hl h

/-! ## Callbacks -/

namespace Progress

/-- A callback went on, and keeps the timers that are set and the requests that were made. -/
structure Keeps (p p' : Progress) : Prop where
  timers : p.world.timers ⊆ p'.world.timers
  requests : p.requests ⊆ p'.requests

variable {p p' p'' : Progress}

theorem Keeps.refl (p : Progress) : p.Keeps p := ⟨List.Subset.refl _, List.Subset.refl _⟩

theorem Keeps.trans (h : p.Keeps p') (h' : p'.Keeps p'') : p.Keeps p'' :=
  ⟨List.Subset.trans h.timers h'.timers, List.Subset.trans h.requests h'.requests⟩

theorem keeps_ask (p : Progress) (subject : Option Subject) (request : Ticket → Request) :
    p.Keeps (p.ask subject request).2 :=
  ⟨List.Subset.refl _, List.subset_append_left _ _⟩

theorem keeps_record (p : Progress) (c : Context) (note : Note) : p.Keeps (p.record c note) :=
  ⟨List.Subset.refl _, List.Subset.refl _⟩

theorem Acts.keeps (h : p.Acts p') : p.Keeps p' := by
  cases h with
  | record => exact keeps_record p _ _
  | defer h =>
      obtain ⟨_, rfl⟩ := defer_eq_ok h
      exact ⟨List.Subset.refl _, List.Subset.refl _⟩
  | remove | composite => exact keeps_ask _ _ _
  | install => exact ⟨List.Subset.refl _, List.subset_append_left _ _⟩

theorem GoesOn.keeps (h : p.GoesOn p') : p.Keeps p' := by
  induction h with
  | refl => exact .refl p
  | tail _ ha ih => exact ih.trans ha.keeps

/-- A callback went on, up to where it waits for something that is under way, or to its end. -/
structure Arrives (id : Nat) (p : Progress) (result : Progress × Halt) : Prop
    extends p.Keeps result.1 where
  waits : ∀ {wait : Wait} {rest : List Action}, result.2 = .waiting wait rest →
    wait.Backed id result.1.world.timers result.1.requests

theorem Keeps.arrives {id : Nat} {result : Progress × Halt} (h : p.Keeps p')
    (h' : p'.Arrives id result) : p.Arrives id result :=
  ⟨h.trans h'.toKeeps, h'.waits⟩

theorem Keeps.returns {id : Nat} {outcome : Except Failure Unit} (h : p.Keeps p') :
    p.Arrives id (p', .returned outcome) :=
  ⟨h, fun hw => nomatch hw⟩

end Progress

/-- What a callback comes to wait for is under way. -/
theorem Performs.arrives {c : Context} {p : Progress} {result : Progress × Halt}
    (h : Performs c p result) : p.Arrives c.id result := by
  induction h with
  | goesOn h _ ih => exact h.keeps.arrives ih
  | returned p => exact (Progress.Keeps.refl p).returns
  | sleeps p millis rest =>
      refine ⟨⟨List.subset_append_left _ _, List.Subset.refl _⟩, fun {wait rest} hw => ?_⟩
      cases hw
      exact ⟨_, List.mem_append_right _ List.mem_cons_self, rfl⟩
  | waits p awaited rest =>
      refine ⟨Progress.keeps_ask p none awaited.request, fun {wait rest} hw => ?_⟩
      cases hw
      exact List.mem_append_right _ (List.mem_singleton.mpr rfl)

/-! ## Turns -/

namespace Turn

/-- A turn goes on, and what a callback comes to wait for is under way. -/
structure Backs (id : Nat) (t t' : Turn) : Prop where
  timers : t.world.timers ⊆ t'.world.timers
  requests : t.requests ⊆ t'.requests
  callback : ∀ {callback : Callback}, t'.controller.callback = some callback →
    t.controller.callback = some callback ∨
      callback.wait.Backed id t'.world.timers t'.requests

variable {t t' t'' : Turn} {id : Nat}

namespace Backs

theorem of_eq (hw : t'.world.timers = t.world.timers) (hr : t'.requests = t.requests)
    (hc : t'.controller.callback = t.controller.callback) : t.Backs id t' :=
  ⟨hw ▸ List.Subset.refl _, hr ▸ List.Subset.refl _, fun h => .inl (hc ▸ h)⟩

theorem refl (t : Turn) : t.Backs id t := of_eq rfl rfl rfl

theorem trans (h : t.Backs id t') (h' : t'.Backs id t'') : t.Backs id t'' := by
  refine ⟨List.Subset.trans h.timers h'.timers, List.Subset.trans h.requests h'.requests,
    fun hc => ?_⟩
  rcases h'.callback hc with hc | hwait
  · exact (h.callback hc).imp_right fun hwait => hwait.mono h'.timers h'.requests
  · exact .inr hwait

end Backs

theorem backs_conclude (t : Turn) (phase : Phase) (work : Option Completion) (interruptible : Bool)
    (outcome : Except Failure Unit) :
    t.Backs id (t.conclude phase work interruptible outcome) := by
  unfold conclude
  split <;> exact .of_eq rfl rfl rfl

theorem backs_settleCallback (t : Turn) (context : Context) (result : Progress × Halt)
    {p : Progress} (hw : t.world.timers ⊆ p.world.timers)
    (h : p.Arrives context.id result) :
    t.Backs context.id (t.settleCallback context result) := by
  obtain ⟨p', halt⟩ := result
  have htimers : t.world.timers ⊆ p'.world.timers := List.Subset.trans hw h.timers
  cases halt with
  | waiting wait rest =>
      refine ⟨htimers, List.subset_append_left _ _, fun hc => .inr ?_⟩
      cases hc
      exact (h.waits rfl).mono (List.Subset.refl _) (List.subset_append_right _ _)
  | returned outcome =>
      have hreturned : t.Backs context.id
          { t with
            world := p'.world, requests := t.requests ++ p'.requests
            controller := { t.controller with callback := none } } :=
        ⟨htimers, List.subset_append_left _ _, fun hc => nomatch hc⟩
      exact hreturned.trans (backs_conclude _ _ _ _ _)

/-- What a callback waited for before is forgotten. -/
theorem settleCallback_free (t : Turn) (context : Context) (result : Progress × Halt) :
    { t with controller := { t.controller with callback := none } }.settleCallback context result =
      t.settleCallback context result := by
  obtain ⟨p, halt⟩ := result
  cases halt <;> rfl

theorem backs_call (t : Turn) (id : Nat) (phase : Phase) (interrupted : Bool) (note : Note)
    (actions : List Action) : t.Backs id (t.call id phase interrupted note actions) :=
  backs_settleCallback t ⟨t.controller.name, id, phase, interrupted⟩ _
    (p := .begin (t.world.record t.controller.name note)) (List.Subset.refl _)
    (performs_perform _ _ _).arrives

theorem backs_callStart (t : Turn) (id : Nat) : t.Backs id (t.callStart id) := by
  unfold callStart
  split
  · exact backs_conclude _ _ _ _ _
  · exact backs_conclude _ _ _ _ _
  · dsimp only
    split
    · refine Backs.trans ?_ (backs_conclude _ _ _ _ _)
      exact .of_eq rfl rfl rfl
    · exact backs_call _ _ _ _ _ _

theorem backs_callStop (t : Turn) (id : Nat) (interrupted : Bool) :
    t.Backs id (t.callStop id interrupted) := by
  unfold callStop
  split
  · exact backs_conclude _ _ _ _ _
  · next children _ =>
      have h : ∀ (l : List Name) (p : Progress),
          p.Keeps (l.foldl (fun p child => (p.ask none (.remove child)).2) p) := by
        intro l
        induction l with
        | nil => exact fun p => .refl p
        | cons m l ih => exact fun p => (Progress.keeps_ask p _ _).trans (ih _)
      refine Backs.trans ?_ (backs_conclude _ _ _ _ _)
      exact ⟨(h children (.begin t.world)).timers, List.subset_append_left _ _, .inl⟩
  · exact backs_call _ _ _ _ _ _

theorem backs_answerInstall (t : Turn) (outcome : Except Error Answer) :
    t.Backs id (t.answerInstall outcome) := by
  unfold answerInstall
  split
  · exact .refl t
  · exact .of_eq (World.Spared.settle _ _ _).timers rfl rfl

theorem backs_completeStart (t : Turn) : t.Backs id t.completeStart := by
  unfold completeStart
  refine Backs.trans ?_ (backs_answerInstall _ _)
  split <;> exact .of_eq rfl rfl rfl

theorem backs_failStart (t : Turn) (why : StartAbort) (event : Event) :
    t.Backs id (t.failStart why event) := by
  unfold failStart
  dsimp only
  split
  · refine Backs.trans ?_ (backs_answerInstall _ _)
    exact .of_eq rfl rfl rfl
  · exact backs_answerInstall t _
  · exact backs_answerInstall t _

theorem backs_injectAndStart (t : Turn) (id : Nat) (values : List (Name × Value)) :
    t.Backs id (t.injectAndStart id values) := by
  unfold injectAndStart
  cases inject t.controller.plan t.world.cells values with
  | mk cells outcome =>
      cases outcome with
      | ok u =>
          refine Backs.trans ?_ (backs_callStart _ id)
          exact .of_eq rfl rfl rfl
      | error e => exact .of_eq rfl rfl rfl

/-- Whatever effect is carried out, what a callback comes to wait for is under way. -/
theorem backs_carryOut (id : Nat) (event : Event) (t : Turn) (effect : Effect) :
    t.Backs id (carryOut id event t effect) := by
  cases effect with
  | injectAndStart =>
      unfold carryOut
      dsimp only
      split
      · exact backs_injectAndStart t id _
      · exact .refl t
  | completeStart => exact backs_completeStart t
  | failStart why => exact backs_failStart t why event
  | invokeStop interrupted =>
      refine Backs.trans ?_ (backs_callStop _ id interrupted)
      exact .of_eq rfl rfl rfl
  | emitStopped | emitRemoved | releaseInjected | terminate => exact .of_eq rfl rfl rfl

theorem backs_foldl (id : Nat) (event : Event) (effects : List Effect) (t : Turn) :
    t.Backs id (effects.foldl (carryOut id event) t) := by
  induction effects generalizing t with
  | nil => exact .refl t
  | cons effect effects ih => exact (backs_carryOut id event t effect).trans (ih _)

theorem onUpdate_timers (t : Turn) (u : GroupUpdate) :
    (t.onUpdate u).world.timers = t.world.timers := by
  have hcalls : ∀ (label : Label) (calls : List HandlerCall) (w : World),
      (w.recordCalls label calls).timers = w.timers := by
    intro label calls
    unfold World.recordCalls
    induction calls with
    | nil => exact fun _ => rfl
    | cons call calls ih => exact fun w => ih _
  cases u with
  | added group member value =>
      simp only [onUpdate]
      split
      · rfl
      · show (World.addMember _ _ _ _ _).timers = _
        unfold World.addMember
        split
        · rfl
        · split
          · exact hcalls _ _ _
          · rfl
  | removed group member =>
      simp only [onUpdate]
      split
      · rfl
      · show (World.removeMember _ _ _).timers = _
        unfold World.removeMember
        split
        · rfl
        · exact hcalls _ _ _

end Turn

/-- A turn leaves the timers that were set, and what a callback waits for after it is under way. -/
structure Turn.Poised (id : Nat) (w : World) (t : Turn) : Prop where
  timers : w.timers ⊆ t.world.timers
  waits : ∀ {callback : Callback}, t.controller.callback = some callback →
    callback.wait.Backed id t.world.timers t.requests

namespace Controller

open Turn

theorem backs_take (c : Controller) (id : Nat) (w : World) :
    Backs id (.begin w c) (c.take id w) := by
  unfold Controller.take
  split
  · exact .refl _
  · next message rest _ =>
      have hbegun : Backs id (.begin w c) (.begin w { c with inbox := rest }) :=
        .of_eq rfl rfl rfl
      cases message with
      | lifecycle event =>
          refine hbegun.trans ?_
          show Backs id _ (Turn.onEvent _ id event)
          unfold Turn.onEvent
          dsimp only
          split
          · exact .refl _
          · next next effects _ =>
              have hmoved : Backs id (.begin w { c with inbox := rest })
                  (.begin w { c with inbox := rest, state := next }) := .of_eq rfl rfl rfl
              have hworked := hmoved.trans (backs_foldl id event effects _)
              split
              · exact hworked
              · exact ⟨hworked.timers, hworked.requests, hworked.callback⟩
      | reference update =>
          refine hbegun.trans ?_
          have hcontroller : ∀ t : Turn, (t.onUpdate update).controller = t.controller ∧
              (t.onUpdate update).requests = t.requests := by
            intro t
            obtain ⟨w', -, ht⟩ := onUpdate_eq t update
            rw [ht]
            exact ⟨rfl, rfl⟩
          exact .of_eq (onUpdate_timers _ _) (hcontroller _).2 (by rw [(hcontroller _).1])

theorem poised_take {c : Controller} (h : c.canTake = true) (id : Nat) (w : World) :
    Poised id w (c.take id w) := by
  have hnone : c.callback = none := by
    simp only [canTake, Bool.and_eq_true, Option.isNone_iff_eq_none] at h
    exact h.1.2
  have ht := backs_take c id w
  refine ⟨ht.timers, fun hc => (ht.callback hc).resolve_left fun hc' => ?_⟩
  exact absurd (hnone.symm.trans hc') (by simp)

theorem poised_resume {c : Controller} {w : World} {callback : Callback}
    {answer : Option (Awaited × Except Error Answer)} (h : c.wakeUp? w = some (callback, answer))
    (id : Nat) : Poised id w (c.resume id w) := by
  let context : Context :=
    { service := c.name, id, phase := callback.phase, interrupted := callback.interrupted }
  let result := carryOn context callback.rest { Progress.begin w with
    deferred := callback.deferred, interruptible := callback.interruptible } answer
  have hsettled := backs_settleCallback (.begin w { c with callback := none }) context
    result (List.Subset.refl _) (performs_carryOn _ _ _ _).arrives
  have hpoised : Poised id w ((Turn.begin w c).settleCallback context result) := by
    rw [← settleCallback_free]
    exact ⟨hsettled.timers, fun hc => (hsettled.callback hc).resolve_left fun hc' => nomatch hc'⟩
  simp only [Controller.resume, h]
  split
  · exact hpoised
  · exact ⟨hpoised.timers, hpoised.waits⟩

end Controller

namespace System

variable {s s' : System} {x : Stimulus} {i : Nat}

/-! ## Timers that are set -/

theorem launchTask_timers (s : System) (owner : Nat) (phase : Phase) (work : Completion) :
    s.world.timers ⊆ (s.launchTask owner phase work).world.timers := by
  unfold launchTask
  split
  · exact List.Subset.refl _
  · rw [wakeAll_world]
    exact List.subset_append_left _ _

theorem timers_applyTurn (s : System) (id : Nat) (t : Turn) :
    t.world.timers ⊆ (s.applyTurn id t).world.timers := by
  let started := { s with world := t.world }.setController id t.controller
  let before := t.calledOff.toList.foldl callOff started
  let after := t.deferred.toList.foldl (fun s d => s.launchTask id d.1 d.2)
    (before.sendAll t.requests)
  have hbefore : before.world = t.world := by
    simp only [before]
    cases t.calledOff with
    | none => rfl
    | some task => exact callOff_world started task
  have hafter : t.world.timers ⊆ after.world.timers := by
    rw [← hbefore, ← (spares_sendAll before t.requests).world.timers]
    simp only [after]
    cases t.deferred with
    | none => exact List.Subset.refl _
    | some d => exact launchTask_timers _ _ _ _
  rw [← (spares_sendAll after t.reported.toList).world.timers] at hafter
  have happly : s.applyTurn id t = if t.controller.ended then
      (after.sendAll t.reported.toList).endController id t.controller
      else after.sendAll t.reported.toList := rfl
  rw [happly]
  split
  · rw [(spares_endController _ _ _).world.timers]
    exact hafter
  · exact hafter

theorem alarm_world (s : System) (a : Actor) : (s.alarm a).world = s.world := by
  cases a <;> simp [alarm]

theorem elapse_timers (s : System) (timer : Timer) :
    (s.elapse timer).world.timers = s.world.timers.erase timer := by
  unfold elapse
  split
  · rw [alarm_world]
  · next hno => rw [List.erase_of_not_mem hno]

theorem run_timers (t : Task) (id : Nat) (w : World) :
    w.timers ⊆ (t.run id w).2.timers ∧ (t.canRun = true → (t.run id w).1.state = .asleep →
      ∃ timer ∈ (t.run id w).2.timers, timer.wakes = .task id) := by
  have hcomplete : w.timers ⊆ (t.complete w).2.timers ∧ (t.complete w).1.state ≠ .asleep := by
    unfold Task.complete
    split <;> exact ⟨List.Subset.refl _, by simp⟩
  unfold Task.run
  split
  · split
    · split
      · exact ⟨List.Subset.refl _, by simp⟩
      · exact ⟨hcomplete.1, fun _ h => absurd h hcomplete.2⟩
    · exact ⟨List.subset_append_left _ _,
        fun _ _ => ⟨_, List.mem_append_right _ List.mem_cons_self, rfl⟩⟩
  · exact ⟨hcomplete.1, fun _ h => absurd h hcomplete.2⟩
  · next hqueued hawake =>
      refine ⟨List.Subset.refl _, fun hcan => ?_⟩
      unfold Task.canRun at hcan
      split at hcan
      · next h => exact absurd h hqueued
      · next h => exact absurd h hawake
      · contradiction

theorem operate_timers (s : System) (origin : Origin) (o : Operation) :
    s.world.timers ⊆ (s.operate origin o).2.world.timers := by
  have hsubmit : ∀ {p : Progress}, (Progress.begin s.world).Keeps p →
      s.world.timers ⊆ ({ s with world := p.world }.sendAll p.requests).world.timers := by
    intro p h
    rw [(spares_sendAll _ _).world.timers]
    exact h.timers
  cases o with
  | start =>
      rcases s.operate_start_cases origin with heq | ⟨_, line, heq⟩ <;> rw [heq]
      · exact List.Subset.refl _
      · simp [log, World.log]
  | install d => exact hsubmit (Progress.Acts.install _ _ _ d).keeps
  | composite c => exact hsubmit (Progress.goesOn_installComposite _ _ _ c).keeps
  | compositeAlone c => exact hsubmit (Progress.Acts.composite _ _ _ c).keeps
  | remove | has | state | text | close | closeInTime | textOfRest =>
      exact hsubmit (Progress.keeps_ask (.begin s.world) _ _)

theorem joinTask_timers (s : System) (id : Nat) :
    (s.joinTask id).world.timers = s.world.timers := by
  unfold joinTask
  split
  · rfl
  · split
    · rfl
    · next outcome _ =>
        dsimp only
        rw [noticeEnd_world, (delivers_deliver _ _).world]
        show (Task.logOutcome _ outcome s.world).timers = _
        unfold Task.logOutcome
        split <;> rfl

/-- A timer stays set until it goes off. -/
theorem timers_apply (s : System) (hx : ∀ timer, x ≠ .elapse timer) :
    s.world.timers ⊆ (s.apply x).world.timers := by
  have hspares : ∀ {s' : System}, s.Spares s' → s.world.timers ⊆ s'.world.timers :=
    fun h => h.world.timers ▸ List.Subset.refl _
  cases x with
  | elapse timer => exact absurd rfl (hx timer)
  | passOver | wait | log => exact List.Subset.refl _
  | cancel => rw [show s.apply .cancel = s.cancel from rfl, cancel_world]; exact List.Subset.refl _
  | giveUp => rw [show s.apply .giveUp = s.giveUp from rfl, giveUp_world]; exact List.Subset.refl _
  | request origin o => exact operate_timers s origin o
  | move m =>
      show s.world.timers ⊆ (s.perform m).world.timers
      unfold perform
      split
      · next hcan =>
          cases m with
          | receive => exact hspares (spares_receive s)
          | force => exact hspares (spares_shutDown s)
          | finish => exact hspares (spares_finish s)
          | take id =>
              simp only [performNow, take]
              split
              · exact List.Subset.refl _
              · next c _ =>
                  exact List.Subset.trans (c.backs_take id s.world).timers
                    (timers_applyTurn s id _)
          | resume id =>
              obtain ⟨c, hc, hresume⟩ := (Option.any_eq_true _ _).mp hcan
              obtain ⟨⟨callback, answer⟩, hwake⟩ := Option.isSome_iff_exists.mp hresume
              simp only [performNow, resume, hc]
              exact List.Subset.trans (Controller.poised_resume hwake id).timers
                (timers_applyTurn s id _)
          | cancel id =>
              simp only [performNow, cancelController]
              split
              · exact List.Subset.refl _
              · exact hspares ((spares_log s _ _).trans (spares_endController _ _ _))
          | run id =>
              simp only [performNow, runTask]
              split
              · exact List.Subset.refl _
              · next t _ =>
                  have hrun := (run_timers t id s.world).1
                  split
                  · rw [noticeEnd_world, wake_world]
                    exact hrun
                  · exact hrun
          | join id => exact (joinTask_timers s id).symm ▸ List.Subset.refl _
          | callOff id =>
              simp only [performNow, callOffTask]
              split
              · exact List.Subset.refl _
              · rw [noticeEnd_world]
                exact List.Subset.refl _
          | warn id =>
              simp only [performNow, warnOverdue]
              split <;> exact List.Subset.refl _
      · exact List.Subset.refl _

end System

end ServiceHost
