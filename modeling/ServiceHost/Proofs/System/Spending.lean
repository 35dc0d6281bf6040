import ServiceHost.Proofs.System.Waits
import ServiceHost.Proofs.System.Tolls

/-! # Turns that pay for themselves

Whatever a controller brings about in a turn is paid for by the message or the callback it goes on
with, and by what is left of the lifecycle of its service. -/

namespace ServiceHost

variable {τ : Tariff}

/-- The price of an effect. -/
def Effect.toll (τ : Tariff) (conduct : Conduct) : Effect → Nat
  | .injectAndStart => conduct.startToll τ + τ.ending
  | .invokeStop _ => conduct.stopToll τ + τ.ending
  | .emitStopped | .emitRemoved => τ.unit
  | .completeStart | .failStart _ | .releaseInjected | .terminate => 0

/-- What is left of a lifecycle pays for the effects of a move, and for the report of the state it
leads to. -/
theorem Moves.toll {interruptible : Bool} {state next : State} {x : Signal}
    {effects : List Effect} (h : Moves interruptible state x next effects) (conduct : Conduct) :
    next.toll τ conduct + (effects.map (Effect.toll τ conduct)).sum +
      (if next.phase = state.phase then 0 else τ.report) ≤ state.toll τ conduct := by
  cases h <;> simp [State.toll, State.phase, Effect.toll] <;> omega

namespace Turn

/-- The price of what a turn has brought about, together with what its controller still does. -/
def toll (τ : Tariff) (t : Turn) : Nat :=
  2 * τ.unit * t.world.timers.length + requestsToll τ t.requests +
    t.deferred.elim 0 (fun _ => 8 * τ.unit) + requestsToll τ t.reported.toList +
    τ.unit * t.controller.inbox.length +
    t.controller.state.toll τ t.controller.plan.conduct +
    t.controller.callback.elim 0 (Callback.toll τ)

/-- A turn goes on at a price. -/
structure Spends (τ : Tariff) (price : Nat) (t t' : Turn) : Prop where
  plan : t'.controller.plan = t.controller.plan
  toll : t'.toll τ ≤ t.toll τ + price

variable {t t' t'' : Turn} {price price' : Nat}

theorem Spends.trans (h : t.Spends τ price t') (h' : t'.Spends τ price' t'') :
    t.Spends τ (price + price') t'' :=
  ⟨h'.plan.trans h.plan, by have := h.toll; have := h'.toll; omega⟩

theorem Spends.mono (h : t.Spends τ price t') (hle : price ≤ price') : t.Spends τ price' t' :=
  ⟨h.plan, Nat.le_trans h.toll (Nat.add_le_add_left hle _)⟩

/-- A turn goes on from another that has the same price. -/
theorem Spends.of_same {t₁ : Turn} (h : t₁.Spends τ price t')
    (hplan : t₁.controller.plan = t.controller.plan) (htoll : t₁.toll τ = t.toll τ) :
    t.Spends τ price t' :=
  ⟨h.plan.trans hplan, htoll ▸ h.toll⟩

theorem spends_emit (t : Turn) (event : Event) : t.Spends τ τ.unit (t.emit event) := by
  refine ⟨rfl, Nat.le_of_eq ?_⟩
  simp only [toll, emit, List.length_append, List.length_singleton, Nat.mul_add]
  omega

theorem spends_answerInstall (t : Turn) (outcome : Except Error Answer) :
    t.Spends τ 0 (t.answerInstall outcome) := by
  unfold answerInstall
  split
  · exact ⟨rfl, Nat.le_refl _⟩
  · refine ⟨rfl, Nat.le_of_eq ?_⟩
    simp only [toll, (World.Spared.settle _ _ _).timers]
    rfl

theorem spends_completeStart (t : Turn) : t.Spends τ 0 t.completeStart := by
  unfold completeStart
  split
  · exact (spends_answerInstall _ _).of_same rfl rfl
  · exact spends_answerInstall _ _

theorem spends_failStart (t : Turn) (why : StartAbort) (event : Event) :
    t.Spends τ 0 (t.failStart why event) := by
  unfold failStart
  split
  · exact (spends_answerInstall _ _).of_same rfl rfl
  · exact spends_answerInstall _ _
  · exact spends_answerInstall _ _

theorem spends_releaseInjected (t : Turn) : t.Spends τ 0 t.releaseInjected :=
  ⟨rfl, Nat.le_refl _⟩

theorem spends_report (t : Turn) (value : Option Value) :
    t.Spends τ τ.report (t.report value) := by
  refine ⟨rfl, ?_⟩
  simp only [toll, report, Option.toList_some, requestsToll_singleton, Request.toll]
  omega

/-- A callback that returned leaves work to a task, or its controller sends itself a message. -/
theorem spends_conclude (t : Turn) (phase : Phase) (deferred : Option Completion)
    (interruptible : Bool) (outcome : Except Failure Unit) :
    t.Spends τ (8 * τ.unit) (t.conclude phase deferred interruptible outcome) := by
  have hemit : ∀ (t : Turn) (e : Event), t.Spends τ (8 * τ.unit) (t.emit e) :=
    fun t e => (spends_emit t e).mono (by omega)
  unfold conclude
  split
  · exact hemit t _
  · refine ⟨rfl, ?_⟩
    simp only [toll, Option.elim_some]
    omega
  · exact hemit t _
  · exact hemit t _
  · refine ⟨rfl, ?_⟩
    simp only [toll, Option.elim_some]
    omega
  · have hlogged : ∀ (w : World), w.timers = t.world.timers →
        ({ t with world := w } : Turn).toll τ = t.toll τ := fun w hw => by simp [toll, hw]
    exact (hemit _ _).of_same rfl (hlogged _ rfl)

/-- How far a callback came takes the place of what it was charged. Unless it waits once more, there
is enough left for a report. -/
theorem toll_settleCallback (t : Turn) (context : Context) (result : Progress × Halt) :
    (t.settleCallback context result).controller.plan = t.controller.plan ∧
    (t.settleCallback context result).toll τ +
        (if (t.settleCallback context result).controller.callback.isSome then 0 else τ.report) +
        2 * τ.unit * t.world.timers.length + t.controller.callback.elim 0 (Callback.toll τ) ≤
      t.toll τ + result.1.toll τ + result.2.toll τ + τ.ending := by
  obtain ⟨p, halt⟩ := result
  unfold settleCallback
  cases halt with
  | waiting wait rest =>
      refine ⟨rfl, ?_⟩
      simp only [toll, Progress.toll, Halt.toll, requestsToll_append, Option.elim_some,
        Callback.toll, Option.isSome_some, if_true]
      omega
  | returned outcome =>
      have hspends := spends_conclude (τ := τ)
        { t with
          world := p.world, requests := t.requests ++ p.requests
          controller := { t.controller with callback := none } }
        context.phase p.deferred p.interruptible outcome
      refine ⟨hspends.plan, ?_⟩
      have hle := hspends.toll
      simp only [toll, requestsToll_append, Option.elim_none] at hle
      simp only [toll, Progress.toll, Halt.toll, Tariff.ending]
      split <;> omega

theorem spends_call (t : Turn) (id : Nat) (phase : Phase) (interrupted : Bool) (note : Note)
    (actions : List Action) :
    t.Spends τ (actionsToll τ actions + τ.ending) (t.call id phase interrupted note actions) := by
  have hperform := toll_perform (τ := τ)
    { service := t.controller.name, id, phase, interrupted } actions
    (.begin (t.world.record t.controller.name note))
  rw [Progress.toll_begin] at hperform
  have hsettle := toll_settleCallback (τ := τ) t
    { service := t.controller.name, id, phase, interrupted }
    (perform { service := t.controller.name, id, phase, interrupted } actions
      (.begin (t.world.record t.controller.name note)))
  refine ⟨hsettle.1, ?_⟩
  have hle := hsettle.2
  have htimers : (t.world.record t.controller.name note).timers = t.world.timers := rfl
  rw [htimers] at hperform
  change (t.settleCallback _ (perform _ _ _)).toll τ ≤ _
  omega

theorem spends_callStart (t : Turn) (id : Nat) :
    t.Spends τ (t.controller.plan.conduct.startToll τ + τ.ending) (t.callStart id) := by
  have hle : 8 * τ.unit ≤ τ.ending := Nat.le_add_right _ _
  unfold callStart
  split
  · refine (spends_conclude t _ _ _ _).mono ?_
    omega
  · refine (spends_conclude t _ _ _ _).mono ?_
    omega
  · next hconduct =>
    dsimp only
    split
    · refine Spends.mono (Spends.of_same (spends_conclude _ _ _ _ _) ?_ ?_) (by omega)
      · rfl
      · rfl
    · rw [hconduct]
      exact spends_call t id _ _ _ _

theorem spends_callStop (t : Turn) (id : Nat) (interrupted : Bool) :
    t.Spends τ (t.controller.plan.conduct.stopToll τ + τ.ending) (t.callStop id interrupted) := by
  have hle : 8 * τ.unit ≤ τ.ending := Nat.le_add_right _ _
  unfold callStop
  split
  · refine (spends_conclude t _ _ _ _).mono ?_
    omega
  · next children hconduct =>
    have hasks : ∀ (l : List Name) (p : Progress),
        (l.foldl (fun p child => (p.ask none (.remove child)).2) p).toll τ =
          p.toll τ + l.length * (τ.unit + τ.fan) := by
      intro l
      induction l with
      | nil => exact fun p => by simp
      | cons child l ih =>
          intro p
          rw [List.foldl_cons, ih, Progress.toll_ask, List.length_cons, Nat.succ_mul, Request.toll]
          omega
    have hall := hasks children (.begin t.world)
    rw [Progress.toll_begin, Progress.toll] at hall
    have hspends := spends_conclude (τ := τ)
      { t with
        world := (children.foldl (fun p child => (p.ask none (.remove child)).2)
          (Progress.begin t.world)).world
        requests := t.requests ++ (children.foldl (fun p child => (p.ask none (.remove child)).2)
          (Progress.begin t.world)).requests } .stop none false (.ok ())
    have hasked : ({ t with
        world := (children.foldl (fun p child => (p.ask none (.remove child)).2)
          (Progress.begin t.world)).world
        requests := t.requests ++ (children.foldl (fun p child => (p.ask none (.remove child)).2)
          (Progress.begin t.world)).requests } : Turn).toll τ =
        t.toll τ + children.length * (τ.unit + τ.fan) := by
      simp only [toll, requestsToll_append]
      omega
    refine ⟨hspends.plan, Nat.le_trans hspends.toll ?_⟩
    rw [hasked, hconduct, Conduct.stopToll]
    omega
  · next hconduct =>
    rw [hconduct]
    exact spends_call t id _ _ _ _

theorem spends_injectAndStart (t : Turn) (id : Nat) (values : List (Name × Value)) :
    t.Spends τ (t.controller.plan.conduct.startToll τ + τ.ending)
      (t.injectAndStart id values) := by
  have hle : τ.unit ≤ τ.ending := by
    unfold Tariff.ending
    omega
  have hstart : ∀ (c : Controller) (w : World), c.plan = t.controller.plan →
      ({ t with world := w, controller := c } : Turn).Spends τ
        (t.controller.plan.conduct.startToll τ + τ.ending)
        (callStart { t with world := w, controller := c } id) := by
    intro c w hc
    rw [← hc]
    exact spends_callStart { t with world := w, controller := c } id
  unfold injectAndStart
  dsimp only
  split
  · refine Spends.of_same (hstart _ _ ?_) ?_ ?_
    · rfl
    · rfl
    · rfl
  · refine Spends.mono (Spends.of_same (spends_emit _ _) ?_ ?_) (by omega)
    · rfl
    · rfl

theorem spends_invokeStop (t : Turn) (id : Nat) (interrupted : Bool) :
    t.Spends τ (t.controller.plan.conduct.stopToll τ + τ.ending)
      (t.invokeStop id interrupted) :=
  (spends_callStop { t with
    calledOff := t.controller.pending
    controller := { t.controller with pending := none } } id interrupted).of_same rfl rfl

theorem spends_carryOut (id : Nat) (event : Event) (t : Turn) (effect : Effect) :
    t.Spends τ (effect.toll τ t.controller.plan.conduct) (carryOut id event t effect) := by
  cases effect with
  | injectAndStart =>
      cases event with
      | dependenciesAvailable values => exact spends_injectAndStart t id values
      | _ => exact ⟨rfl, Nat.le_add_right _ _⟩
  | completeStart => exact spends_completeStart t
  | failStart why => exact spends_failStart t why event
  | invokeStop interrupted => exact spends_invokeStop t id interrupted
  | emitStopped => exact spends_emit t _
  | emitRemoved => exact spends_emit t _
  | releaseInjected => exact spends_releaseInjected t
  | terminate => exact ⟨rfl, Nat.le_refl _⟩

theorem spends_effects (id : Nat) (event : Event) (effects : List Effect) (t : Turn) :
    t.Spends τ ((effects.map (Effect.toll τ t.controller.plan.conduct)).sum)
      (effects.foldl (carryOut id event) t) := by
  induction effects generalizing t with
  | nil => exact ⟨rfl, Nat.le_refl _⟩
  | cons effect effects ih =>
      have hone := spends_carryOut (τ := τ) id event t effect
      have hrest := ih (carryOut id event t effect)
      rw [hone.plan] at hrest
      exact hone.trans hrest

/-- A signal is paid for by what is left of the lifecycle. -/
theorem spends_onEvent (t : Turn) (id : Nat) (event : Event) :
    t.Spends τ 0 (t.onEvent id event) := by
  unfold onEvent
  dsimp only
  split
  · exact ⟨rfl, Nat.le_refl _⟩
  · next next effects htransition =>
    have hmoves := Moves.toll (τ := τ) (transition_eq_some_iff.mp htransition)
      t.controller.plan.conduct
    have heffects := spends_effects (τ := τ) id event effects
      { t with controller := { t.controller with state := next } }
    have hpaid : (effects.foldl (carryOut id event)
        { t with controller := { t.controller with state := next } }).toll τ +
        (if next.phase = t.controller.state.phase then 0 else τ.report) ≤ t.toll τ := by
      have hle := heffects.toll
      simp only [toll] at hle ⊢
      omega
    split
    · exact ⟨heffects.plan, Nat.le_trans (Nat.le_add_right _ _) hpaid⟩
    · next hno =>
      simp only [Bool.or_eq_true, decide_eq_true_eq, not_or] at hno
      rw [if_neg hno.1] at hpaid
      have hreport := fun value => spends_report (τ := τ) (effects.foldl (carryOut id event)
        { t with controller := { t.controller with state := next } }) value
      exact ⟨(hreport _).plan.trans heffects.plan, Nat.le_trans (hreport _).toll hpaid⟩

theorem spends_onUpdate (t : Turn) (update : GroupUpdate) :
    t.Spends τ 0 (t.onUpdate update) := by
  have htimers := onUpdate_timers t update
  obtain ⟨w, -, ht⟩ := onUpdate_eq t update
  rw [ht] at htimers ⊢
  exact ⟨rfl, by simp [toll, show w.timers = t.world.timers from htimers]⟩

end Turn

namespace Controller

open Turn

variable {c : Controller} {w : World}

/-- A turn is paid for by the message it takes. -/
theorem toll_take (h : c.canTake = true) (id : Nat) (w : World) :
    (c.take id w).controller.plan = c.plan ∧
      (c.take id w).toll τ + τ.unit ≤ (Turn.begin w c).toll τ := by
  simp only [canTake, Bool.and_eq_true, Bool.not_eq_true', List.isEmpty_eq_false_iff] at h
  obtain ⟨message, rest, hinbox⟩ := List.exists_cons_of_ne_nil h.2
  have hbegun : (Turn.begin w { c with inbox := rest }).toll τ + τ.unit =
      (Turn.begin w c).toll τ := by
    simp only [Turn.toll, Turn.begin, hinbox, List.length_cons, Nat.mul_succ]
    omega
  unfold take
  rw [hinbox, ← hbegun]
  cases message with
  | lifecycle event =>
      have hspends := spends_onEvent (τ := τ) (Turn.begin w { c with inbox := rest }) id event
      exact ⟨hspends.plan, Nat.add_le_add_right hspends.toll _⟩
  | reference update =>
      have hspends := spends_onUpdate (τ := τ) (Turn.begin w { c with inbox := rest }) update
      exact ⟨hspends.plan, Nat.add_le_add_right hspends.toll _⟩

/-- A turn is paid for by the callback it goes on with. -/
theorem toll_resume {callback : Callback} {answer : Option (Awaited × Except Error Answer)}
    (h : c.wakeUp? w = some (callback, answer)) (id : Nat) :
    (c.resume id w).controller.plan = c.plan ∧
      (c.resume id w).toll τ + τ.unit ≤ (Turn.begin w c).toll τ := by
  have hcallback : c.callback = some callback := callback_of_wakeUp? h
  let context : Context :=
    { service := c.name, id, phase := callback.phase, interrupted := callback.interrupted }
  let carried := carryOn context callback.rest
    { Progress.begin w with
      deferred := callback.deferred, interruptible := callback.interruptible } answer
  have hcarried : carried.1.toll τ + carried.2.toll τ ≤
      2 * τ.unit * w.timers.length + actionsToll τ callback.rest := by
    have hle := toll_carryOn (τ := τ) context callback.rest { Progress.begin w with
      deferred := callback.deferred, interruptible := callback.interruptible } answer
    rwa [← Progress.toll_begin]
  obtain ⟨hplan, hsettled⟩ := toll_settleCallback (τ := τ) (Turn.begin w c) context carried
  have hpaid : (Turn.begin w c).controller.callback.elim 0 (Callback.toll τ) =
      τ.unit + actionsToll τ callback.rest + τ.ending := by
    simp [Turn.begin, hcallback, Callback.toll]
  have hresumed : c.resume id w =
      if ((Turn.begin w c).settleCallback context carried).controller.callback.isSome then
        (Turn.begin w c).settleCallback context carried
      else ((Turn.begin w c).settleCallback context carried).report none := by
    unfold resume
    rw [h]
  rw [hresumed]
  rw [hpaid, show (Turn.begin w c).world = w from rfl] at hsettled
  split
  · next hwaits =>
    rw [if_pos hwaits] at hsettled
    exact ⟨hplan, by omega⟩
  · next hreturned =>
    rw [if_neg hreturned] at hsettled
    have hreport := spends_report (τ := τ) ((Turn.begin w c).settleCallback context carried) none
    have hle := hreport.toll
    exact ⟨hreport.plan.trans hplan, by omega⟩

end Controller

end ServiceHost
