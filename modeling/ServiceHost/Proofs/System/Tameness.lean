import ServiceHost.Proofs.System.Answers
import ServiceHost.Proofs.System.Contents

/-! # Callbacks that keep to themselves

A tame callback asks the container for nothing and, if it is a `start`, comes to a good end. As long
as services are only started, or only stopped, the turns of their controllers keep it so. -/

namespace ServiceHost

/-- Work that may be left to be done: what a `start` leaves comes to a good end. -/
def Work.Tame (phase : Phase) (work : Work) : Prop := phase = .start → work.ending = .done

/-- Actions that ask for nothing and, in a `start`, do not fail; `deferred` tells whether completion
was deferred before them. -/
def TameActions (phase : Phase) (deferred : Bool) : List Action → Prop
  | [] => True
  | action :: rest =>
    match action with
    | .sleep _ | .note _ | .context | .read _ => TameActions phase deferred rest
    | .fail _ | .panic _ => phase = .stop
    | .runAsync work _ catching =>
      if deferred then if catching then TameActions phase true rest else phase = .stop
      else work.Tame phase ∧ TameActions phase true rest
    | .run work catching =>
      if deferred then if catching then TameActions phase true rest else phase = .stop
      else work.Tame phase ∧ TameActions phase true rest
    | .remove .. => False
    | .has _ | .install _ | .composite _ | .compositeAlone _ =>
      phase = .stop ∧ TameActions phase deferred rest

instance (phase : Phase) (work : Work) : Decidable (work.Tame phase) :=
  inferInstanceAs (Decidable (phase = .start → work.ending = .done))

instance decidableTameActions (phase : Phase) : (deferred : Bool) → (actions : List Action) →
    Decidable (TameActions phase deferred actions)
  | _, [] => isTrue trivial
  | deferred, action :: rest =>
    have (b : Bool) := decidableTameActions phase b rest
    match action with
    | .sleep _ | .note _ | .context | .read _ =>
      inferInstanceAs (Decidable (TameActions phase deferred rest))
    | .fail _ | .panic _ => inferInstanceAs (Decidable (phase = .stop))
    | .runAsync work _ catching =>
      inferInstanceAs (Decidable (if deferred then
        if catching then TameActions phase true rest else phase = .stop
        else work.Tame phase ∧ TameActions phase true rest))
    | .run work catching =>
      inferInstanceAs (Decidable (if deferred then
        if catching then TameActions phase true rest else phase = .stop
        else work.Tame phase ∧ TameActions phase true rest))
    | .remove .. => isFalse id
    | .has _ | .install _ | .composite _ | .compositeAlone _ =>
      inferInstanceAs (Decidable (phase = .stop ∧ TameActions phase deferred rest))

/-- The callback of a phase is tame. -/
def Conduct.Tame (phase : Phase) : Conduct → Prop
  | .plain => True
  | .scripted immediate start stop _ _ =>
    match phase with
    | .start => immediate = true ∨ TameActions .start false start
    | .stop => TameActions .stop false stop
  | .composite children => phase = .stop → children = []

instance (phase : Phase) (conduct : Conduct) : Decidable (conduct.Tame phase) :=
  match conduct, phase with
  | .plain, _ => isTrue trivial
  | .scripted immediate start _ _ _, .start =>
    inferInstanceAs (Decidable (immediate = true ∨ TameActions .start false start))
  | .scripted _ _ stop _ _, .stop => inferInstanceAs (Decidable (TameActions .stop false stop))
  | .composite children, phase => inferInstanceAs (Decidable (phase = .stop → children = []))

/-- A callback is suspended that goes on tamely. -/
structure Callback.Tame (phase : Phase) (callback : Callback) : Prop where
  called : callback.phase = phase
  rest : TameActions phase callback.deferred.isSome callback.rest
  deferred : ∀ work, callback.deferred = some work → work.Tame phase
  unasking : ∀ ticket awaited, callback.wait ≠ .answer ticket awaited

/-- The signal by which a callback comes to a good end. -/
def Phase.done : Phase → Signal
  | .start => .started
  | .stop => .stopped

/-- Actions were carried out tamely. -/
structure Progress.Behaves (phase : Phase) (p : Progress) (result : Progress × Halt) : Prop where
  requests : result.1.requests = p.requests
  cells : result.1.world.cells = p.world.cells
  deferred : ∀ work, result.1.deferred = some work → work.Tame phase
  halt : match result.2 with
    | .waiting wait rest => TameActions phase result.1.deferred.isSome rest ∧
        ∀ ticket awaited, wait ≠ .answer ticket awaited
    | .returned outcome => phase = .start → outcome = .ok ()

variable {phase : Phase} {p p' : Progress} {result : Progress × Halt}

theorem Progress.Behaves.of_begun (h : p'.Behaves phase result) (hr : p'.requests = p.requests)
    (hc : p'.world.cells = p.world.cells) : p.Behaves phase result :=
  ⟨h.requests.trans hr, h.cells.trans hc, h.deferred, h.halt⟩

theorem behaves_perform (c : Context) (actions : List Action) (p : Progress)
    (h : TameActions c.phase p.deferred.isSome actions)
    (hd : ∀ work, p.deferred = some work → work.Tame c.phase) :
    p.Behaves c.phase (perform c actions p) := by
  induction actions generalizing p with
  | nil =>
      simp only [perform, Progress.finish]
      split
      · exact ⟨rfl, rfl, hd, fun _ => rfl⟩
      · exact ⟨rfl, rfl, hd, fun _ => rfl⟩
  | cons action rest ih =>
      have hrecord : ∀ note, TameActions c.phase p.deferred.isSome rest →
          p.Behaves c.phase (perform c rest (p.record c note)) := fun note h =>
        (ih (p.record c note) h hd).of_begun rfl rfl
      -- completion is deferred, or that is refused
      have hdefer : ∀ (work : Completion) (interruptible catching : Bool),
          (if p.deferred.isSome = true then
              if catching = true then TameActions c.phase true rest else c.phase = .stop
            else work.Tame c.phase ∧ TameActions c.phase true rest) →
          p.Behaves c.phase (deferThen (perform c rest) c work interruptible catching p) := by
        intro work interruptible catching h
        simp only [deferThen, Progress.defer]
        split at h
        · next hsome =>
            simp only [hsome, if_true]
            split at h
            · next hcatching =>
                simp only [hcatching, if_true]
                exact hrecord _ (hsome ▸ h)
            · next hcatching =>
                simp only [hcatching, if_false, Bool.false_eq_true]
                exact ⟨rfl, rfl, hd, fun hp => by simp [h] at hp⟩
        · next hnone =>
            simp only [hnone, if_false, Bool.false_eq_true]
            refine (ih { p with deferred := some work, interruptible } h.2 ?_).of_begun rfl rfl
            rintro w hw
            exact Option.some.inj hw ▸ h.1
      cases action with
      | sleep millis =>
          cases millis with
          | zero => exact ih p h hd
          | succ k => exact ⟨rfl, rfl, hd, h, by simp⟩
      | note text => exact hrecord _ h
      | context => exact hrecord _ h
      | read label => exact hrecord _ h
      | fail failure | panic panic =>
          have hstop : c.phase = .stop := h
          exact ⟨rfl, rfl, hd, fun hp => by simp [hstop] at hp⟩
      | runAsync work interruptible catching => exact hdefer ⟨work, false⟩ interruptible catching h
      | run work catching => exact hdefer ⟨work, true⟩ false catching h
      | remove name awaited => exact h.elim
      | has name | install service | composite unit | compositeAlone unit =>
          obtain ⟨hstop, h⟩ := h
          simp only [perform, hstop]
          exact hstop ▸ ih p h hd

/-! ## What happens while services are only started, or only stopped -/

/-- The states of services of which no callback of the other phase is called. -/
def Phase.Allows : Phase → State → Prop
  | .start, state => state = .waiting ∨ state = .starting false ∨ state = .started
  | .stop, state => state.phase ≠ 1

/-- The signals they are sent. -/
def Phase.Sends : Phase → Signal → Prop
  | .start, x => x = .dependenciesAvailable ∨ x = .started
  | .stop, x => x ≠ .dependenciesAvailable ∧ x ≠ .started ∧ x ≠ .startFailed

/-- The states they report. -/
def Phase.Reports : Phase → State → Prop
  | .start, state => ¬state.Leaving
  | .stop, state => state.Leaving

theorem Phase.sends_done (phase : Phase) : phase.Sends phase.done := by
  cases phase <;> simp [Sends, done]

namespace Moves

variable {interruptible : Bool} {s next : State} {x : Signal} {effects : List Effect}

/-- While services are only started, a move begins the start or completes it. -/
theorem of_start (h : Moves interruptible s x next effects) (hs : Phase.start.Allows s)
    (hx : Phase.start.Sends x) :
    (x = .dependenciesAvailable ∧ next = .starting false ∧ effects = [.injectAndStart]) ∨
      (x = .started ∧ next = .started ∧ effects = [.completeStart]) := by
  rcases hs with rfl | rfl | rfl <;> rcases hx with rfl | rfl <;> cases h <;>
    simp_all [Signal.Stops]

/-- The moves made while services are only started, or only stopped. -/
theorem tame (h : Moves interruptible s x next effects) (hs : phase.Allows s)
    (hx : phase.Sends x) : phase.Allows next ∧ (next.phase ≠ s.phase → phase.Reports next) := by
  cases phase with
  | start =>
      rcases h.of_start hs hx with ⟨_, rfl, _⟩ | ⟨_, rfl, _⟩ <;>
        simp [Phase.Allows, Phase.Reports, State.Leaving, State.phase]
  | stop =>
      cases h <;> simp_all [Phase.Allows, Phase.Sends, Phase.Reports, State.Leaving, State.phase]

end Moves

/-- A controller all whose callbacks of a phase are tame, and of which no other is called. -/
structure Controller.Tame (phase : Phase) (c : Controller) : Prop where
  conduct : c.plan.conduct.Tame phase
  callback : ∀ callback, c.callback = some callback → callback.Tame phase
  state : phase.Allows c.state
  signals : ∀ x ∈ c.signals, phase.Sends x

/-! ## Turns -/

/-- How far a tame callback came. -/
inductive CameTamely (phase : Phase) (inbox : List Message) (c : Controller) :
    Option (Phase × Completion) → Prop
  | suspended (callback : Callback) (hc : c.callback = some callback) (hk : callback.Tame phase)
      (hi : c.inbox = inbox) : CameTamely phase inbox c none
  | returned (e : Event) (he : e.signal = phase.done) (hc : c.callback = none)
      (hi : c.inbox = inbox ++ [.lifecycle e]) : CameTamely phase inbox c none
  | deferred (work : Completion) (hw : work.Tame phase) (hc : c.callback = none)
    (hi : c.inbox = inbox) :
      CameTamely phase inbox c (some (phase, work))

namespace Turn

/-- A turn goes on by running a tame callback. -/
structure RunsTamely (phase : Phase) (t t' : Turn) : Prop where
  plan : t'.controller.plan = t.controller.plan
  requests : t'.requests = t.requests
  cells : t'.world.cells = t.world.cells
  came : CameTamely phase t.controller.inbox t'.controller t'.deferred

variable {t t₁ t' : Turn}

theorem RunsTamely.of_begun (h : t₁.RunsTamely phase t')
    (hp : t₁.controller.plan = t.controller.plan)
    (hi : t₁.controller.inbox = t.controller.inbox) (hr : t₁.requests = t.requests)
    (hc : t₁.world.cells = t.world.cells) : t.RunsTamely phase t' :=
  ⟨h.plan.trans hp, h.requests.trans hr, h.cells.trans hc, hi ▸ h.came⟩

theorem runsTamely_conclude (t : Turn) (phase : Phase) (work : Option Completion)
    (interruptible : Bool) (outcome : Except Failure Unit) (hw : ∀ w, work = some w → w.Tame phase)
    (ho : phase = .start → outcome = .ok ()) (hc : t.controller.callback = none)
    (hd : t.deferred = none) :
    t.RunsTamely phase (t.conclude phase work interruptible outcome) := by
  have hemit : ∀ (phase : Phase) {t : Turn} (e : Event), e.signal = phase.done →
      t.controller.callback = none → t.deferred = none → t.RunsTamely phase (t.emit e) := by
    intro phase t e he hc hd
    refine ⟨rfl, rfl, rfl, ?_⟩
    simp only [emit, hd]
    exact .returned e he hc rfl
  cases phase with
  | start =>
      obtain rfl := ho rfl
      cases work with
      | none => exact hemit .start .started rfl hc hd
      | some work => exact ⟨rfl, rfl, rfl, .deferred work (hw work rfl) hc rfl⟩
  | stop =>
      cases outcome with
      | error failure =>
          let logged := { t with world := t.world.logStopFailure t.controller.name failure }
          have h : logged.RunsTamely .stop (logged.emit .stopped) := hemit .stop .stopped rfl hc hd
          exact h.of_begun rfl rfl rfl rfl
      | ok u =>
          cases work with
          | none => exact hemit .stop .stopped rfl hc hd
          | some work => exact ⟨rfl, rfl, rfl, .deferred work (hw work rfl) hc rfl⟩

theorem runsTamely_settleCallback (t : Turn) (context : Context) (result : Progress × Halt)
    {p : Progress} (hr : p.requests = []) (hc : p.world.cells = t.world.cells)
    (h : p.Behaves context.phase result) (hd : t.deferred = none) :
    t.RunsTamely context.phase (t.settleCallback context result) := by
  obtain ⟨p', halt⟩ := result
  have hreq : p'.requests = [] := h.requests.trans hr
  have hcells : p'.world.cells = t.world.cells := h.cells.trans hc
  cases halt with
  | waiting wait rest =>
      refine ⟨rfl, by simp [settleCallback, hreq], hcells, ?_⟩
      simp only [settleCallback, hd]
      exact .suspended _ rfl ⟨rfl, h.halt.1, h.deferred, h.halt.2⟩ rfl
  | returned outcome =>
      have hrun := runsTamely_conclude
        { t with
          world := p'.world, requests := t.requests ++ p'.requests
          controller := { t.controller with callback := none } }
        context.phase p'.deferred p'.interruptible outcome h.deferred h.halt rfl hd
      exact hrun.of_begun rfl rfl (by simp [hreq]) hcells

theorem runsTamely_call (t : Turn) (id : Nat) (phase : Phase) (interrupted : Bool) (note : Note)
    (actions : List Action) (h : TameActions phase false actions) (hd : t.deferred = none) :
    t.RunsTamely phase (t.call id phase interrupted note actions) :=
  runsTamely_settleCallback t ⟨t.controller.name, id, phase, interrupted⟩ _
    (p := .begin (t.world.record t.controller.name note)) rfl rfl
    (behaves_perform _ _ _ h (by simp [Progress.begin])) hd

theorem runsTamely_callStart (t : Turn) (id : Nat) (h : t.controller.plan.conduct.Tame .start)
    (hc : t.controller.callback = none) (hd : t.deferred = none) :
    t.RunsTamely .start (t.callStart id) := by
  unfold callStart
  split
  · exact runsTamely_conclude t _ _ _ _ (by simp) (fun _ => rfl) hc hd
  · exact runsTamely_conclude t _ _ _ _ (by simp) (fun _ => rfl) hc hd
  · next immediate start _ dependencies slots hconduct =>
      rw [hconduct] at h
      dsimp only
      split
      · refine (runsTamely_conclude _ .start none false (.ok ()) (by simp) (fun _ => rfl) ?_
          ?_).of_begun ?_ ?_ ?_ ?_
        all_goals first | exact hc | exact hd | rfl
      · next hno => exact runsTamely_call t id .start false _ start (h.resolve_left hno) hd

theorem runsTamely_callStop (t : Turn) (id : Nat) (interrupted : Bool)
    (h : t.controller.plan.conduct.Tame .stop) (hc : t.controller.callback = none)
    (hd : t.deferred = none) : t.RunsTamely .stop (t.callStop id interrupted) := by
  unfold callStop
  split
  · exact runsTamely_conclude t _ _ _ _ (by simp) (by simp) hc hd
  · next children hconduct =>
      rw [hconduct] at h
      obtain rfl := h rfl
      refine (runsTamely_conclude _ .stop none false (.ok ()) (by simp) (by simp) ?_ ?_).of_begun
        ?_ ?_ ?_ ?_
      all_goals first | exact hc | exact hd | rfl | simp [Progress.begin]
  · next hconduct =>
      rw [hconduct] at h
      exact runsTamely_call t id .stop interrupted _ _ h hd

/-- What a turn of a controller with tame callbacks makes of the slots. -/
inductive Refills (phase : Phase) (plan : Plan) (message : Message) (effects : List Effect)
    (cells : Cells) : Cells → Prop
  | kept {cells' : Cells} (hno : .injectAndStart ∉ effects)
    (h : Cells.Frame (fun _ => False) cells cells') :
    Refills phase plan message effects cells cells'
  | filled (values : List (Name × Value)) (hp : phase = .start)
    (hm : message = .lifecycle (.dependenciesAvailable values)) (he : .injectAndStart ∈ effects) :
    Refills phase plan message effects cells (inject plan cells values).1
  | emptied {cells' : Cells} (hp : phase = .stop) (he : .releaseInjected ∈ effects)
    (h : Cells.Frame plan.Binds cells cells') : Refills phase plan message effects cells cells'

/-- Effects were carried out in a turn of a controller with tame callbacks. -/
structure WorksTamely (phase : Phase) (event : Event) (effects : List Effect) (t t' : Turn) :
    Prop where
  requests : t'.requests = []
  callback : ∀ callback, t'.controller.callback = some callback → callback.Tame phase
  deferred : ∀ p work, t'.deferred = some (p, work) → p = phase ∧ work.Tame phase
  signals : ∀ x ∈ t'.controller.signals, x ∈ t.controller.signals ∨ phase.Sends x
  cells : Refills phase t.controller.plan (.lifecycle event) effects t.world.cells t'.world.cells

variable {event : Event} {effects : List Effect}

theorem WorksTamely.of_quiet (h : t.Quiet t') (hid : t.Idle)
    (hcells : Refills phase t.controller.plan (.lifecycle event) effects t.world.cells
      t'.world.cells) :
    t.WorksTamely phase event effects t' := by
  have hid' := h.idle hid
  refine ⟨hid'.requests, by simp [hid'.callback], by simp [hid'.deferred], fun x hx => .inl ?_,
    hcells⟩
  rwa [Controller.signals, h.inbox] at hx

theorem WorksTamely.emit (h : t.WorksTamely phase event effects t') {e : Event}
    (he : phase.Sends e.signal) : t.WorksTamely phase event effects (t'.emit e) := by
  refine ⟨h.requests, h.callback, h.deferred, fun x hx => ?_, h.cells⟩
  simp only [Turn.emit, Controller.signals, List.filterMap_append, List.mem_append] at hx
  rcases hx with hx | hx
  · exact h.signals x hx
  · obtain rfl : x = e.signal := by simpa [Message.signal?] using hx
    exact .inr he

theorem WorksTamely.of_runs (h : t₁.RunsTamely phase t') (hr : t₁.requests = [])
    (hi : t₁.controller.inbox = t.controller.inbox)
    (hcells : Refills phase t.controller.plan (.lifecycle event) effects t.world.cells
      t₁.world.cells) : t.WorksTamely phase event effects t' := by
  have hcame := h.came
  rw [hi] at hcame
  refine ⟨h.requests.trans hr, ?_, ?_, ?_, h.cells ▸ hcells⟩ <;>
    generalize t'.deferred = left at hcame
  · intro callback hc
    cases hcame with
    | suspended callback' hc' hk =>
        obtain rfl := Option.some.inj (hc'.symm.trans hc)
        exact hk
    | returned e he hc' | deferred work hw hc' => simp [hc'] at hc
  · rintro p work rfl
    cases hcame with
    | deferred work hw => exact ⟨rfl, hw⟩
  · intro x hx
    cases hcame with
    | suspended callback' hc' hk hi' => exact .inl (by rwa [Controller.signals, hi'] at hx)
    | deferred work hw hc' hi' => exact .inl (by rwa [Controller.signals, hi'] at hx)
    | returned e he hc' hi' =>
        simp only [Controller.signals, hi', List.filterMap_append, List.mem_append] at hx
        rcases hx with hx | hx
        · exact .inl hx
        · obtain rfl : x = e.signal := by simpa [Message.signal?] using hx
          exact .inr (he ▸ phase.sends_done)

/-- The effects of a move made while services are only started, or only stopped. -/
theorem worksTamely_foldl (t : Turn) (id : Nat) {state next : State} {interruptible : Bool}
    (h : Moves interruptible state event.signal next effects) (hid : t.Idle)
    (hconduct : t.controller.plan.conduct.Tame phase) (hs : phase.Allows state)
    (hx : phase.Sends event.signal)
    (hinject : ∀ values, event = .dependenciesAvailable values →
      (inject t.controller.plan t.world.cells values).2 = .ok ()) :
    t.WorksTamely phase event effects (effects.foldl (carryOut id event) t) := by
  cases phase with
  | start =>
      rcases h.of_start hs hx with ⟨he, _, rfl⟩ | ⟨_, _, rfl⟩
      · obtain ⟨values, rfl⟩ : ∃ values, event = .dependenciesAvailable values := by
          cases event <;> simp_all [Event.signal]
        have hok := hinject values rfl
        let t₁ : Turn :=
          { t with
            world := { t.world with cells := (inject t.controller.plan t.world.cells values).1 }
            controller := { t.controller with resolved := values.map Prod.fst } }
        have hcall : carryOut id (.dependenciesAvailable values) t .injectAndStart =
            t₁.callStart id := by
          simp only [carryOut, injectAndStart, hok]
          rfl
        rw [List.foldl_cons, List.foldl_nil, hcall]
        exact .of_runs (runsTamely_callStart t₁ id hconduct hid.callback hid.deferred)
          hid.requests rfl (.filled values rfl rfl (by simp))
      · exact .of_quiet (quiet_completeStart t) hid
          (.kept (by simp) (.of_eq (completeStart_cells t)))
  | stop =>
      generalize hxe : event.signal = x at h hx
      cases h with
      | start | complete => simp [Phase.Sends] at hx
      | late | fail | cut | note => simp [Phase.Allows, State.phase] at hs
      | abort hstop =>
          have hquiet := quiet_failStart t .interrupted event
          exact .emit (.of_quiet hquiet hid (.kept (by simp)
            (.of_eq (failStart_cells t .interrupted event)))) (by simp [Phase.Sends, Event.signal])
      | drain hstop => exact .of_quiet (.refl t) hid (.kept (by simp) (.refl _ _))
      | release =>
          exact .of_runs (t := t) (runsTamely_callStop
            { t with calledOff := t.controller.pending
                     controller := { t.controller with pending := none } }
            id false hconduct hid.callback hid.deferred) hid.requests rfl
            (.kept (by simp) (.refl _ _))
      | vanish =>
          exact .emit (.of_quiet (quiet_releaseInjected t) hid
            (.emptied rfl (by simp) (frame_releaseInjected t)))
            (by simp [Phase.Sends, Event.signal])
      | last =>
          exact ⟨hid.requests, by simp [carryOut, hid.callback], by simp [carryOut, hid.deferred],
            fun x hx => .inl hx, .kept (by simp) (.refl _ _)⟩

/-- A turn may be reported. -/
structure Closes (t t' : Turn) : Prop where
  controller : t'.controller = t.controller
  requests : t'.requests = t.requests
  deferred : t'.deferred = t.deferred
  world : t'.world = t.world

theorem closes_report (t : Turn) (p : Prop) [Decidable p] (value : Option Value) :
    t.Closes (if p then t else t.report value) := by
  split <;> exact ⟨rfl, rfl, rfl, rfl⟩

/-- A turn of a controller with tame callbacks, while services are only started, or only stopped. -/
structure Tame (phase : Phase) (c : Controller) (t : Turn) : Prop where
  controller : t.controller.Tame phase
  requests : t.requests = []
  deferred : ∀ p work, t.deferred = some (p, work) → p = phase ∧ work.Tame phase
  reported : ∀ r, t.reported = some r →
    ∃ state value, r = .report c.plan.name state value ∧ phase.Reports state

theorem WorksTamely.tame {c : Controller} (h : t.WorksTamely phase event effects t₁)
    (hclose : t₁.Closes t') (hsignals : ∀ x ∈ t.controller.signals, phase.Sends x)
    (hconduct : t'.controller.plan.conduct.Tame phase) (hstate : phase.Allows t'.controller.state)
    (hreported : ∀ r, t'.reported = some r →
      ∃ state value, r = .report c.plan.name state value ∧ phase.Reports state) :
    Turn.Tame phase c t' := by
  refine ⟨⟨hconduct, ?_, hstate, ?_⟩, hclose.requests.trans h.requests, ?_, hreported⟩
  · rw [hclose.controller]
    exact h.callback
  · rw [hclose.controller]
    exact fun x hx => (h.signals x hx).elim (hsignals x) id
  · rw [hclose.deferred]
    exact h.deferred

end Turn

namespace Controller

variable {c : Controller} {w : World}

/-- Every slot takes the value that is offered for it. -/
def Accepts (c : Controller) (cells : Cells) : Prop :=
  ∀ values, .lifecycle (.dependenciesAvailable values) ∈ c.inbox →
    (Turn.inject c.plan cells values).2 = .ok ()

/-- A message that means nothing to a controller concerns no slot. -/
theorem frame_take_of_unheeded {message : Message} {rest : List Message}
    (hi : c.inbox = message :: rest) (hno : ∀ x, message.signal? = some x → ¬c.Heeds x) (id : Nat)
    (w : World) : Cells.Frame (fun _ => False) w.cells (c.take id w).world.cells := by
  cases message with
  | reference u =>
      simp only [Controller.take, hi]
      exact Turn.frame_onUpdate (.begin w { c with inbox := rest }) u
  | lifecycle e =>
      have hignored : transition c.state e.signal c.interruptible = none := by
        cases he : transition c.state e.signal c.interruptible with
        | none => rfl
        | some move => exact absurd ⟨move.1, move.2, transition_eq_some_iff.mp he⟩ (hno _ rfl)
      exact .of_eq (by simp [Controller.take, hi, Turn.onEvent, Turn.begin, hignored])

open Turn in
theorem Tame.take (h : c.Tame phase) (hcan : c.canTake = true) (id : Nat)
    (haccepts : c.Accepts w.cells) : Turn.Tame phase c (c.take id w) ∧
      ∃ message rest, c.inbox = message :: rest ∧
        Refills phase c.plan message c.effects w.cells (c.take id w).world.cells := by
  rcases c.take_cases hcan id w with ⟨message, rest, hi, hno, heffects, ht⟩ |
    ⟨e, rest, next, hi, hc, hm, ht⟩
  · -- the message means nothing
    have hrest : ∀ x ∈ Controller.signals { c with inbox := rest }, phase.Sends x := fun x hx =>
      h.signals x (by rw [c.signals_cons hi]; exact List.mem_append_right _ hx)
    refine ⟨⟨?_, ht.requests, by simp [ht.deferred], by simp [ht.reported]⟩, message, rest, hi,
      .kept (by simp [heffects]) (frame_take_of_unheeded hi hno id w)⟩
    rw [ht.controller]
    exact ⟨h.conduct, h.callback, h.state, hrest⟩
  · have hx : phase.Sends e.signal :=
      h.signals _ (by rw [c.signals_cons hi]; simp [Message.signal?])
    have hrest : ∀ x ∈ rest.filterMap Message.signal?, phase.Sends x := fun x hx =>
      h.signals x (by rw [c.signals_cons hi]; exact List.mem_append_right _ hx)
    have hworks := worksTamely_foldl (.begin w { c with inbox := rest, state := next }) id hm
      ⟨hc, rfl, rfl, rfl, rfl⟩ h.conduct h.state hx fun values he =>
        haccepts values (by rw [hi, he]; exact List.mem_cons_self ..)
    obtain ⟨hnext, hreports⟩ := hm.tame h.state hx
    have hclose := closes_report
      (c.effects.foldl (carryOut id e) (.begin w { c with inbox := rest, state := next }))
    refine ⟨hworks.tame (take_eq hi hm id w ▸ hclose _ _) hrest (ht.plan ▸ h.conduct)
      (ht.state ▸ hnext) fun r hr => ?_, .lifecycle e, rest, hi, ?_⟩
    · rw [ht.reported] at hr
      split at hr
      · cases hr
      · next hmoved =>
          push Not at hmoved
          exact ⟨_, _, (Option.some.inj hr).symm, hreports hmoved.1⟩
    · rw [take_eq hi hm id w, (hclose _ _).world]
      exact hworks.cells

open Turn in
/-- A suspended callback goes on. -/
theorem Tame.resume (h : c.Tame phase) {callback : Callback}
    {answer : Option (Awaited × Except Error Answer)}
    (hwake : c.wakeUp? w = some (callback, answer)) (hin : callback.phase.In c.state) (id : Nat) : Turn.Tame phase c (c.resume id w) ∧
      (c.resume id w).world.cells = w.cells := by
  have ht := resume_resumed hwake id
  have hk := h.callback callback (callback_of_wakeUp? hwake)
  obtain rfl := hk.called
  have hanswer : answer = none := by
    simp only [wakeUp?, callback_of_wakeUp? hwake] at hwake
    split at hwake
    · cases hwake
    · cases hwake
      rfl
    · next ticket awaited hwait => exact absurd hwait (hk.unasking ticket awaited)
  subst hanswer
  let context : Context :=
    { service := c.name, id, phase := callback.phase, interrupted := callback.interrupted }
  let p : Progress :=
    { Progress.begin w with deferred := callback.deferred, interruptible := callback.interruptible }
  have hbehaves : p.Behaves context.phase (perform context callback.rest p) :=
    behaves_perform context callback.rest p hk.rest hk.deferred
  let t := (Turn.begin w c).settleCallback context (perform context callback.rest p)
  have hruns : RunsTamely callback.phase (.begin w c) t :=
    runsTamely_settleCallback (.begin w c) context _ rfl rfl hbehaves rfl
  have hworks : WorksTamely callback.phase .removed [] (.begin w c) t :=
    .of_runs hruns rfl rfl (.kept (by simp) (.refl _ _))
  have hclose : t.Closes (c.resume id w) := by
    have heq : c.resume id w =
        if t.controller.callback.isSome = true then t else t.report none := by
      simp only [Controller.resume, hwake]
      rfl
    rw [heq]
    exact closes_report t _ none
  refine ⟨hworks.tame hclose h.signals (ht.alike.plan ▸ h.conduct) (ht.alike.state ▸ h.state)
    fun r hr => ?_, hclose.world ▸ hruns.cells⟩
  rw [ht.reported] at hr
  split at hr
  · cases hr
  · refine ⟨_, _, (Option.some.inj hr).symm, ?_⟩
    generalize callback.phase = phase at hin
    cases phase <;> simp_all [Phase.In, Phase.Reports, State.Leaving]

end Controller

end ServiceHost
