import ServiceHost.Controller
import ServiceHost.Proofs.Spoilt.Callbacks

/-! # Turns of controllers whose stop is spoilt

A controller makes the same turn whether its stop comes back well or fails: in either case it tells
itself that the service has stopped. -/

namespace ServiceHost

/-- A suspended callback, and one that is spoilt. -/
inductive Callback.Spoils (callback : Callback) : Callback → Prop
  | mk {rest : List Action} {deferred : Option Completion}
    (hd : SpoilsLeft callback.phase callback.deferred deferred)
    (hr : callback.phase.SpoilsActions callback.deferred.isSome callback.rest rest) :
    callback.Spoils { callback with rest, deferred }

/-- A controller, and the same one of a service whose stop is spoilt. -/
inductive Controller.Spoils (c : Controller) : Controller → Prop
  | mk {conduct : Conduct} {callback : Option Callback} (hc : c.plan.conduct.Spoils conduct)
    (hk : Option.Rel Callback.Spoils c.callback callback) :
    c.Spoils { c with plan := c.plan.withConduct conduct, callback }

/-- Work left to a task; that of a stop may be spoilt. -/
inductive SpoilsDeferred : Option (Phase × Completion) → Option (Phase × Completion) → Prop
  | same (deferred : Option (Phase × Completion)) : SpoilsDeferred deferred deferred
  | work {work work' : Completion} (h : work.Spoils work') :
    SpoilsDeferred (some (.stop, work)) (some (.stop, work'))

/-- A turn, and the same one of a controller whose stop is spoilt. -/
inductive Turn.Spoils (t : Turn) : Turn → Prop
  | mk {world : World} {controller : Controller} {requests : List Request}
    {deferred : Option (Phase × Completion)} (hw : t.world.Spoils world)
    (hc : t.controller.Spoils controller) (hr : List.Forall₂ Request.Spoils t.requests requests)
    (hd : SpoilsDeferred t.deferred deferred) :
    t.Spoils { t with world, controller, requests, deferred }

namespace Controller.Spoils

variable {c c' : Controller} (h : c.Spoils c')
include h

theorem name : c'.name = c.name := by
  obtain ⟨-, -⟩ := h
  rfl

theorem value : c'.plan.value = c.plan.value := by
  obtain ⟨-, -⟩ := h
  rfl

theorem conduct : c.plan.conduct.Spoils c'.plan.conduct := by
  obtain ⟨hc, -⟩ := h
  exact hc

theorem callback : Option.Rel Callback.Spoils c.callback c'.callback := by
  obtain ⟨-, hk⟩ := h
  exact hk

theorem inbox : c'.inbox = c.inbox := by
  obtain ⟨-, -⟩ := h
  rfl

theorem ended : c'.ended = c.ended := by
  obtain ⟨-, -⟩ := h
  rfl

/-- The same messages in either inbox. -/
theorem withInbox (inbox : List Message) :
    Controller.Spoils { c with inbox } { c' with inbox } := by
  obtain ⟨hc, hk⟩ := h
  exact ⟨hc, hk⟩

/-- Deferred to the same task. -/
theorem withPending (pending : Option Nat) :
    Controller.Spoils { c with pending } { c' with pending } := by
  obtain ⟨hc, hk⟩ := h
  exact ⟨hc, hk⟩

theorem callback_isSome : c'.callback.isSome = c.callback.isSome := by
  have hk := h.callback
  generalize c.callback = o, c'.callback = o' at hk
  cases hk <;> rfl

end Controller.Spoils

theorem inject_withConduct (plan : Plan) (conduct : Conduct) (cells : Cells)
    (values : List (Name × Value)) :
    Turn.inject (plan.withConduct conduct) cells values = Turn.inject plan cells values := by
  induction values generalizing cells with
  | nil => rfl
  | cons value rest ih =>
      obtain ⟨dependency, value⟩ := value
      simp only [Turn.inject]
      split
      · next cells' hinject =>
          have hsame : cells.inject dependency value (plan.slotsOf dependency) = (cells', .ok ()) :=
            hinject
          rw [hsame]
          exact ih cells'
      · next cells' expected hinject =>
          have hsame : cells.inject dependency value (plan.slotsOf dependency) =
              (cells', .error expected) := hinject
          rw [hsame]
          rfl

/-- The removals of the children of a composite are asked for alike. -/
theorem Progress.Spoils.askRemovals {phase : Phase} {p p' : Progress} (h : p.Spoils phase p')
    (children : List Name) :
    (children.foldl (fun p child => (p.ask none (.remove child)).2) p).Spoils phase
      (children.foldl (fun p child => (p.ask none (.remove child)).2) p') := by
  induction children generalizing p p' with
  | nil => exact h
  | cons child children ih => exact ih (h.ask none fun _ => .same _).2

namespace Turn.Spoils

variable {t t' : Turn}

theorem begin {w w' : World} {c c' : Controller} (hw : w.Spoils w') (hc : c.Spoils c') :
    (Turn.begin w c).Spoils (Turn.begin w' c') :=
  ⟨hw, hc, .nil, .same none⟩

theorem world (h : t.Spoils t') : t.world.Spoils t'.world := by
  obtain ⟨hw, -, -, -⟩ := h
  exact hw

theorem controller (h : t.Spoils t') : t.controller.Spoils t'.controller := by
  obtain ⟨-, hc, -, -⟩ := h
  exact hc

theorem reported (h : t.Spoils t') : t'.reported = t.reported := by
  obtain ⟨-, -, -, -⟩ := h
  rfl

theorem withWorld (h : t.Spoils t') {w w' : World} (hw : w.Spoils w') :
    Turn.Spoils { t with world := w } { t' with world := w' } := by
  obtain ⟨-, hc, hr, hd⟩ := h
  exact ⟨hw, hc, hr, hd⟩

theorem emit (h : t.Spoils t') (event : Event) : (t.emit event).Spoils (t'.emit event) := by
  obtain ⟨hw, ⟨hc, hk⟩, hr, hd⟩ := h
  exact ⟨hw, ⟨hc, hk⟩, hr, hd⟩

theorem answerInstall (h : t.Spoils t') (outcome : Except Error Answer) :
    (t.answerInstall outcome).Spoils (t'.answerInstall outcome) := by
  obtain ⟨hw, ⟨hc, hk⟩, hr, hd⟩ := h
  unfold Turn.answerInstall
  dsimp only
  split
  · exact ⟨hw, ⟨hc, hk⟩, hr, hd⟩
  · exact ⟨hw.settle _ outcome, ⟨hc, hk⟩, hr, hd⟩

theorem completeStart (h : t.Spoils t') : t.completeStart.Spoils t'.completeStart := by
  have hrecord := h.withWorld (h.world.record (.same .get) t.controller.name)
  have hconduct := h.controller.conduct
  unfold Turn.completeStart Turn.startAnswer
  generalize hc : t.controller.plan.conduct = conduct at hconduct
  generalize hc' : t'.controller.plan.conduct = conduct' at hconduct
  cases hconduct with
  | plain | composite =>
      simp only [hc, hc', h.controller.value]
      exact h.answerInstall _
  | scripted =>
      simp only [hc, hc', h.controller.value, h.controller.name]
      exact hrecord.answerInstall _

theorem failStart (h : t.Spoils t') (why : StartAbort) (event : Event) :
    (t.failStart why event).Spoils (t'.failStart why event) := by
  unfold Turn.failStart
  rw [h.controller.name]
  split
  · exact (h.withWorld (h.world.log _ _)).answerInstall _
  · exact h.answerInstall _
  · exact h.answerInstall _

theorem releaseInjected (h : t.Spoils t') : t.releaseInjected.Spoils t'.releaseInjected := by
  obtain ⟨⟨hj, hl⟩, ⟨hc, hk⟩, hr, hd⟩ := h
  exact ⟨⟨hj, hl⟩, ⟨hc, hk⟩, hr, hd⟩

theorem report (h : t.Spoils t') (value : Option Value) :
    (t.report value).Spoils (t'.report value) := by
  obtain ⟨hw, ⟨hc, hk⟩, hr, hd⟩ := h
  exact ⟨hw, ⟨hc, hk⟩, hr, hd⟩

/-- A callback got as far as it could. -/
theorem withProgress (h : t.Spoils t') {phase : Phase} {p p' : Progress} (hp : p.Spoils phase p') :
    Turn.Spoils { t with world := p.world, requests := t.requests ++ p.requests }
      { t' with world := p'.world, requests := t'.requests ++ p'.requests } := by
  obtain ⟨hpw, hpr, -⟩ := hp
  obtain ⟨-, hc, hr, hd⟩ := h
  exact ⟨hpw, hc, List.rel_append hr hpr, hd⟩

/-- However a callback comes back, its controller goes on alike. -/
theorem conclude (h : t.Spoils t') {phase : Phase} {left left' : Option Completion}
    (hl : SpoilsLeft phase left left') (interruptible : Bool)
    {outcome outcome' : Except Failure Unit}
    (ho : SpoilsHalt phase left (.returned outcome) (.returned outcome')) :
    (t.conclude phase left interruptible outcome).Spoils
      (t'.conclude phase left' interruptible outcome') := by
  cases ho with
  | same =>
      cases outcome with
      | error failure =>
          cases phase with
          | start => exact h.emit _
          | stop =>
              simp only [Turn.conclude, h.controller.name]
              exact (h.withWorld (h.world.log _ _)).emit _
      | ok _ =>
          cases hl with
          | same =>
              cases left with
              | none => cases phase <;> exact h.emit _
              | some work =>
                  obtain ⟨hw, ⟨hc, hk⟩, hr, hd⟩ := h
                  cases phase <;> exact ⟨hw, ⟨hc, hk⟩, hr, .same _⟩
          | work hp hwork =>
              subst hp
              obtain ⟨hw, ⟨hc, hk⟩, hr, hd⟩ := h
              exact ⟨hw, ⟨hc, hk⟩, hr, .work hwork⟩
  | failed hp hnone failure =>
      subst hp hnone
      cases hl
      exact (h.withWorld (h.world.failed _ failure)).emit _

theorem withCallback (h : t.Spoils t') {callback callback' : Option Callback}
    (hk : Option.Rel Callback.Spoils callback callback') :
    Turn.Spoils { t with controller := { t.controller with callback } }
      { t' with controller := { t'.controller with callback := callback' } } := by
  obtain ⟨hw, ⟨hc, -⟩, hr, hd⟩ := h
  exact ⟨hw, ⟨hc, hk⟩, hr, hd⟩

theorem settleCallback (h : t.Spoils t') (context : Context) {r r' : Progress × Halt}
    (hr : SpoilsResult context.phase r r') :
    (t.settleCallback context r).Spoils (t'.settleCallback context r') := by
  obtain ⟨p, halt⟩ := r
  obtain ⟨p', halt'⟩ := r'
  obtain ⟨hp, hhalt⟩ := hr
  have hcame := h.withProgress hp
  obtain ⟨-, -, hpd⟩ := hp
  cases hhalt with
  | waiting wait hactions => exact hcame.withCallback (.some ⟨hpd, hactions⟩)
  | same outcome => exact (hcame.withCallback .none).conclude hpd _ (.same outcome)
  | failed hp hnone failure =>
      exact (hcame.withCallback .none).conclude hpd _ (.failed hp hnone failure)

theorem call (h : t.Spoils t') (id : Nat) (phase : Phase) (interrupted : Bool) (note : Note)
    {actions actions' : List Action} (ha : phase.SpoilsActions false actions actions') :
    (t.call id phase interrupted note actions).Spoils
      (t'.call id phase interrupted note actions') := by
  unfold Turn.call
  rw [h.controller.name]
  exact h.settleCallback _ (spoils_perform _ ha (.begin (h.world.record (.same note) _)))

theorem callStart (h : t.Spoils t') (id : Nat) : (t.callStart id).Spoils (t'.callStart id) := by
  have hconduct := h.controller.conduct
  have hplain : (t.conclude .start none false (.ok ())).Spoils
      (t'.conclude .start none false (.ok ())) := h.conclude (.same none) false (.same _)
  unfold Turn.callStart
  generalize hc : t.controller.plan.conduct = conduct at hconduct
  generalize hc' : t'.controller.plan.conduct = conduct' at hconduct
  cases hconduct with
  | plain | composite => exact hplain
  | scripted immediate hstart _ dependencies slots =>
      simp only [Journal.standing_spoils h.world.journal, h.world.cells, h.controller.name]
      split
      · exact conclude (h.withWorld (h.world.record (.same _) _)) (.same none) false (.same _)
      · exact h.call id .start false _ hstart

theorem callStop (h : t.Spoils t') (id : Nat) (interrupted : Bool) :
    (t.callStop id interrupted).Spoils (t'.callStop id interrupted) := by
  have hconduct := h.controller.conduct
  unfold Turn.callStop
  generalize hc : t.controller.plan.conduct = conduct at hconduct
  generalize hc' : t'.controller.plan.conduct = conduct' at hconduct
  cases hconduct with
  | plain => exact h.conclude (.same none) false (.same _)
  | composite children =>
      have hp := Progress.Spoils.askRemovals (.begin h.world : Progress.Spoils .stop _ _) children
      exact (h.withProgress hp).conclude (.same none) false (.same _)
  | scripted immediate _ hstop dependencies slots =>
      simp only [Journal.dependents_spoils h.world.journal, h.controller.name]
      exact h.call id .stop interrupted _ hstop

theorem injectAndStart (h : t.Spoils t') (id : Nat) (values : List (Name × Value)) :
    (t.injectAndStart id values).Spoils (t'.injectAndStart id values) := by
  have hinject : Turn.inject t'.controller.plan t'.world.cells values =
      Turn.inject t.controller.plan t.world.cells values := by
    obtain ⟨⟨-, -⟩, ⟨-, -⟩, -, -⟩ := h
    exact inject_withConduct _ _ _ _
  unfold Turn.injectAndStart
  rw [hinject]
  have hfilled : Turn.Spoils
      { t with
        world := { t.world with cells := (Turn.inject t.controller.plan t.world.cells values).1 }
        controller := { t.controller with resolved := values.map Prod.fst } }
      { t' with
        world := { t'.world with cells := (Turn.inject t.controller.plan t.world.cells values).1 }
        controller := { t'.controller with resolved := values.map Prod.fst } } := by
    obtain ⟨hw, ⟨hc, hk⟩, hr, hd⟩ := h
    exact ⟨hw.withCells _, ⟨hc, hk⟩, hr, hd⟩
  dsimp only
  split
  · exact hfilled.callStart id
  · exact hfilled.emit _

theorem invokeStop (h : t.Spoils t') (id : Nat) (interrupted : Bool) :
    (t.invokeStop id interrupted).Spoils (t'.invokeStop id interrupted) := by
  have hfreed : Turn.Spoils
      { t with
        calledOff := t.controller.pending, controller := { t.controller with pending := none } }
      { t' with
        calledOff := t'.controller.pending
        controller := { t'.controller with pending := none } } := by
    obtain ⟨hw, ⟨hc, hk⟩, hr, hd⟩ := h
    exact ⟨hw, ⟨hc, hk⟩, hr, hd⟩
  exact hfreed.callStop id interrupted

theorem carryOut (h : t.Spoils t') (id : Nat) (event : Event) (effect : Effect) :
    (Turn.carryOut id event t effect).Spoils (Turn.carryOut id event t' effect) := by
  cases effect with
  | injectAndStart =>
      simp only [Turn.carryOut]
      split
      · exact h.injectAndStart id _
      · exact h
  | completeStart => exact h.completeStart
  | failStart why => exact h.failStart why event
  | invokeStop interrupted => exact h.invokeStop id interrupted
  | emitStopped => exact h.emit _
  | emitRemoved => exact h.emit _
  | releaseInjected => exact h.releaseInjected
  | terminate =>
      obtain ⟨hw, ⟨hc, hk⟩, hr, hd⟩ := h
      exact ⟨hw, ⟨hc, hk⟩, hr, hd⟩

theorem foldl_carryOut (h : t.Spoils t') (id : Nat) (event : Event) (effects : List Effect) :
    (effects.foldl (Turn.carryOut id event) t).Spoils
      (effects.foldl (Turn.carryOut id event) t') := by
  induction effects generalizing t t' with
  | nil => exact h
  | cons effect effects ih => exact ih (h.carryOut id event effect)

theorem onEvent (h : t.Spoils t') (id : Nat) (event : Event) :
    (t.onEvent id event).Spoils (t'.onEvent id event) := by
  have hmove : transition t'.controller.state event.signal t'.controller.interruptible =
      transition t.controller.state event.signal t.controller.interruptible := by
    obtain ⟨-, ⟨-, -⟩, -, -⟩ := h
    rfl
  have hstate : t'.controller.state = t.controller.state := by
    obtain ⟨-, ⟨-, -⟩, -, -⟩ := h
    rfl
  unfold Turn.onEvent
  simp only [hmove]
  split
  · exact h
  · next next effects hnext =>
      have hmoved : Turn.Spoils { t with controller := { t.controller with state := next } }
          { t' with controller := { t'.controller with state := next } } := by
        obtain ⟨hw, ⟨hc, hk⟩, hr, hd⟩ := h
        exact ⟨hw, ⟨hc, hk⟩, hr, hd⟩
      have hdone := hmoved.foldl_carryOut id event effects
      simp only [hstate, hdone.controller.callback_isSome, h.controller.value]
      split
      · exact hdone
      · exact hdone.report _

theorem onUpdate (h : t.Spoils t') (update : GroupUpdate) :
    (t.onUpdate update).Spoils (t'.onUpdate update) := by
  have hrosters : t'.controller.plan.rosters = t.controller.plan.rosters := by
    obtain ⟨-, ⟨-, -⟩, -, -⟩ := h
    rfl
  unfold Turn.onUpdate
  rw [hrosters]
  split
  · split
    · exact h
    · exact h.withWorld (h.world.addMember _ _ _ _)
  · split
    · exact h
    · exact h.withWorld (h.world.removeMember _ _)

end Turn.Spoils

namespace Controller.Spoils

variable {c c' : Controller} {w w' : World} (h : c.Spoils c') (hw : w.Spoils w')
include h hw

theorem take (id : Nat) : (c.take id w).Spoils (c'.take id w') := by
  unfold Controller.take
  rw [h.inbox]
  split
  · exact .begin hw h
  · next rest _ =>
      dsimp only
      split
      · exact Turn.Spoils.onEvent (.begin hw (h.withInbox rest)) id _
      · exact Turn.Spoils.onUpdate (.begin hw (h.withInbox rest)) _

/-- What a suspended callback waited for is there at the same time. -/
theorem wakeUp? : Option.Rel (fun x x' => x.1.Spoils x'.1 ∧ x'.2 = x.2) (c.wakeUp? w)
    (c'.wakeUp? w') := by
  obtain ⟨hc, hk⟩ := h
  unfold Controller.wakeUp?
  dsimp only
  generalize c.callback = o at hk
  cases hk with
  | none => exact .none
  | @some callback _ hcallback =>
      have hwait := hcallback
      obtain ⟨-, -⟩ := hwait
      dsimp only
      split
      · exact .none
      · exact .some ⟨hcallback, rfl⟩
      · next ticket awaited _ =>
          rw [hw.outcome?]
          cases w.outcome? ticket with
          | none => exact .none
          | some outcome => exact .some ⟨hcallback, rfl⟩

theorem canResume : c'.canResume w' = c.canResume w := by
  have hwake := wakeUp? h hw
  unfold Controller.canResume
  generalize c.wakeUp? w = o, c'.wakeUp? w' = o' at hwake
  cases hwake <;> rfl

theorem resume (id : Nat) : (c.resume id w).Spoils (c'.resume id w') := by
  have hwake := wakeUp? h hw
  unfold Controller.resume
  generalize c.wakeUp? w = o, c'.wakeUp? w' = o' at hwake
  cases hwake with
  | none => exact .begin hw h
  | @some x x' hx =>
      obtain ⟨callback, answer⟩ := x
      obtain ⟨callback', answer'⟩ := x'
      obtain ⟨hcallback, hanswer⟩ := hx
      obtain rfl : answer = answer' := hanswer.symm
      obtain ⟨hd, hr⟩ : callback.Spoils callback' := hcallback
      have hp : Progress.Spoils callback.phase
          { Progress.begin w with
            deferred := callback.deferred, interruptible := callback.interruptible }
          { Progress.begin w' with
            deferred := _, interruptible := callback.interruptible } := ⟨hw, .nil, hd⟩
      have hsettled := (Turn.Spoils.begin hw h).settleCallback
        { service := c.name, id, phase := callback.phase, interrupted := callback.interrupted }
        (spoils_carryOn _ hr hp answer)
      simp only [h.name]
      simp only [hsettled.controller.callback_isSome]
      split
      · exact hsettled
      · exact hsettled.report none

end Controller.Spoils

namespace Controller.Spoils

variable {c c' : Controller} (h : c.Spoils c')
include h

theorem canTake : c'.canTake = c.canTake := by
  have hisSome := h.callback_isSome
  obtain ⟨-, -⟩ := h
  unfold Controller.canTake
  rw [← Option.not_isSome, ← Option.not_isSome, hisSome]

theorem alarm : c.alarm.Spoils c'.alarm := by
  obtain ⟨hc, hk⟩ := h
  refine ⟨hc, ?_⟩
  simp only [Controller.alarm]
  generalize c.callback = o at hk
  cases hk with
  | none => exact .none
  | some hcallback =>
      obtain ⟨hd, hr⟩ := hcallback
      refine .some ?_
      dsimp only
      split <;> exact ⟨hd, hr⟩

/-- The oldest message asks for the same. -/
theorem effects : c'.effects = c.effects := by
  obtain ⟨-, -⟩ := h
  rfl

theorem invokes? {w w' : World} (hw : w.Spoils w') : c'.invokes? w' = c.invokes? w := by
  have heffects := h.effects
  have hcells := hw.cells
  obtain ⟨-, -⟩ := h
  simp only [Controller.invokes?, heffects, hcells, inject_withConduct]

theorem cancelText : c'.cancelText = c.cancelText := by
  obtain ⟨-, -⟩ := h
  rfl

end Controller.Spoils

end ServiceHost
