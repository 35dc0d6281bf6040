import ServiceHost.Proofs.System.Attempts

/-! # How a callback comes back

Whatever its actions are, a callback is suspended, or it comes back with the work it asked to be
complete after, or it comes back and its controller tells itself the outcome. Of several requests
to be complete later the first one counts. -/

namespace ServiceHost

/-- The work an action asks to be complete after, and whether that may be cut short. -/
def Action.completion? : Action → Option (Completion × Bool)
  | .runAsync work interruptible _ => some (⟨work, false⟩, interruptible)
  | .run work _ => some (⟨work, true⟩, false)
  | _ => none

/-- What the actions of a callback ask to be complete after: the first request counts. -/
def completion? (actions : List Action) : Option (Completion × Bool) :=
  actions.findSome? Action.completion?

/-- The actions of a callback. One that returns at once has none. -/
def Conduct.script : Conduct → Phase → List Action
  | .scripted immediate start _ _ _, .start => if immediate then [] else start
  | .scripted _ _ stop _ _, .stop => stop
  | .plain, _ | .composite _, _ => []

/-- How a callback comes back, unless it is suspended. -/
def Halt.outcome? : Halt → Option (Except Failure Unit)
  | .returned outcome => some outcome
  | .waiting .. => none

/-- What became of a callback that came back and asked to be complete after some work, or after
none. -/
def Phase.verdict (phase : Phase) (asked : Option (Completion × Bool)) :
    Except Failure Unit → Except Failure Unit
  | .ok () => asked.elim (.ok ()) fun (work, _) => work.ending.outcome phase
  | .error failure => .error failure

/-- The event by which a controller is told what became of a callback. -/
def Phase.event : Phase → Except Failure Unit → Event
  | .start, outcome => .ofStart outcome
  | .stop, _ => .stopped

theorem Task.event_eq (t : Task) (outcome : Except Failure Unit) :
    t.event outcome = t.phase.event outcome := by
  unfold event Phase.event Event.ofStart
  cases t.phase <;> cases outcome <;> rfl

theorem Phase.outcome_event (phase : Phase) (outcome : Except Failure Unit) :
    phase.Outcome (phase.event outcome).signal := by
  cases phase with
  | start => cases outcome <;> simp [Outcome, event, Event.ofStart, Event.signal]
  | stop => rfl

/-! ## Actions -/

/-- The work that completion was deferred to, and whether it may be cut short. -/
def Progress.left? (p : Progress) : Option (Completion × Bool) :=
  p.deferred.map (·, p.interruptible)

/-- The same of a suspended callback. -/
def Callback.left? (k : Callback) : Option (Completion × Bool) :=
  k.deferred.map (·, k.interruptible)

/-- However far a callback comes, it keeps to what it asked to be complete after. -/
def KeepsTo (asked : Option (Completion × Bool)) (result : Progress × Halt) : Prop :=
  match result.2 with
  | .waiting _ rest => result.1.left?.or (completion? rest) = asked
  | .returned (.ok ()) => result.1.left? = asked
  | .returned (.error _) => True

variable {c c' : Context} {p p' : Progress} {phase : Phase} {asked : Option (Completion × Bool)}

theorem completion?_cons (action : Action) (rest : List Action) :
    completion? (action :: rest) = action.completion?.or (completion? rest) := by
  unfold completion?
  rw [List.findSome?_cons]
  cases action.completion? <;> rfl

theorem foldl_install_deferred (origin : Origin) (l : List Service) (p : Progress) :
    (l.foldl (fun p d => p.install origin none d) p).deferred = p.deferred ∧
      (l.foldl (fun p d => p.install origin none d) p).interruptible = p.interruptible := by
  induction l generalizing p with
  | nil => exact ⟨rfl, rfl⟩
  | cons d l ih => exact ih (p.install origin none d)

theorem installComposite_deferred (p : Progress) (origin : Origin) (scope : Option Name)
    (unit : Composite) :
    (p.installComposite origin scope unit).deferred = p.deferred ∧
      (p.installComposite origin scope unit).interruptible = p.interruptible :=
  foldl_install_deferred origin unit.services p

theorem installComposite_left? (p : Progress) (origin : Origin) (scope : Option Name)
    (unit : Composite) : (p.installComposite origin scope unit).left? = p.left? := by
  unfold Progress.left?
  rw [(installComposite_deferred p _ _ unit).1, (installComposite_deferred p _ _ unit).2]

/-- Completion is deferred, or that is refused. -/
theorem keepsTo_deferThen (c : Context) {rest : List Action}
    (ih : ∀ p, KeepsTo (p.left?.or (completion? rest)) (perform c rest p)) (p : Progress)
    (work : Completion) (interruptible catching : Bool) :
    KeepsTo (p.left?.or ((some (work, interruptible)).or (completion? rest)))
      (deferThen (perform c rest) c work interruptible catching p) := by
  simp only [deferThen, Progress.defer]
  by_cases hsome : p.deferred.isSome = true
  · have hleft : p.left?.isSome = true := by simpa [Progress.left?] using hsome
    rw [if_pos hsome, Option.or_of_isSome hleft]
    dsimp only
    split
    · have hrest := ih (p.record c (.refused .alreadyDeferred))
      have hsame : (p.record c (.refused .alreadyDeferred)).left? = p.left? := rfl
      rwa [hsame, Option.or_of_isSome hleft] at hrest
    · trivial
  · rw [if_neg hsome]
    have hleft : p.left? = none := by simpa [Progress.left?] using hsome
    rw [hleft, Option.none_or, Option.some_or]
    exact ih { p with deferred := some work, interruptible }

theorem keepsTo_perform (c : Context) (actions : List Action) (p : Progress) :
    KeepsTo (p.left?.or (completion? actions)) (perform c actions p) := by
  induction actions generalizing p with
  | nil =>
      simp only [perform, KeepsTo, Progress.finish, completion?, List.findSome?_nil, Option.or_none]
      split <;> rfl
  | cons action rest ih =>
      rw [completion?_cons]
      cases action with
      | sleep millis =>
          cases millis with
          | zero => exact ih p
          | succ k => rfl
      | note text | context | read label => exact ih (p.record c _)
      | fail failure | panic cause => trivial
      | runAsync work interruptible catching =>
          exact keepsTo_deferThen c ih p ⟨work, false⟩ interruptible catching
      | run work catching => exact keepsTo_deferThen c ih p ⟨work, true⟩ false catching
      | remove name awaited =>
          cases awaited with
          | false => exact ih (p.ask _ _).2
          | true => rfl
      | has name =>
          simp only [perform]
          split
          · exact ih p
          · rfl
      | install service =>
          simp only [perform]
          split
          · exact ih p
          · exact ih (p.install _ _ service)
      | composite unit =>
          simp only [perform]
          split
          · exact ih p
          · exact installComposite_left? p _ _ unit ▸ ih _
      | compositeAlone unit =>
          simp only [perform]
          split
          · exact ih p
          · exact ih (p.installAlone _ _ unit)

theorem keepsTo_carryOn (c : Context) (rest : List Action) (p : Progress)
    (answer : Option (Awaited × Except Error Answer)) :
    KeepsTo (p.left?.or (completion? rest)) (carryOn c rest p answer) := by
  unfold carryOn
  split
  · exact keepsTo_perform c rest p
  · exact keepsTo_perform c rest (p.record c _)
  · exact keepsTo_perform c rest (p.record c _)
  · exact keepsTo_perform c rest p
  · trivial

theorem outcome?_deferThen {rest : List Action}
    (ih : ∀ {p p' : Progress}, p.deferred.isSome = p'.deferred.isSome →
      (perform c rest p).2.outcome? = (perform c' rest p').2.outcome?)
    (h : p.deferred.isSome = p'.deferred.isSome) (work : Completion)
    (interruptible catching : Bool) :
    (deferThen (perform c rest) c work interruptible catching p).2.outcome? =
      (deferThen (perform c' rest) c' work interruptible catching p').2.outcome? := by
  simp only [deferThen, Progress.defer, h]
  by_cases hsome : p'.deferred.isSome = true
  · simp only [hsome, if_true]
    split
    · exact ih h
    · rfl
  · simp only [hsome, if_false, Bool.false_eq_true]
    exact ih rfl

/-- How a callback comes back depends on its actions, and on whether it asked to be complete
later. -/
theorem outcome?_perform (hphase : c.phase = c'.phase) (actions : List Action)
    (h : p.deferred.isSome = p'.deferred.isSome) :
    (perform c actions p).2.outcome? = (perform c' actions p').2.outcome? := by
  induction actions generalizing p p' with
  | nil => rfl
  | cons action rest ih =>
      cases action with
      | sleep millis =>
          cases millis with
          | zero => exact ih h
          | succ k => rfl
      | note text | context | read label => exact ih h
      | fail failure => rfl
      | panic cause => simp only [perform, Halt.outcome?, hphase]
      | runAsync work interruptible catching =>
          exact outcome?_deferThen ih h ⟨work, false⟩ interruptible catching
      | run work catching => exact outcome?_deferThen ih h ⟨work, true⟩ false catching
      | remove name awaited =>
          cases awaited with
          | false => exact ih h
          | true => rfl
      | has name =>
          simp only [perform, hphase]
          split
          · exact ih h
          · rfl
      | install service =>
          simp only [perform, hphase]
          split
          · exact ih h
          · exact ih h
      | composite unit =>
          simp only [perform, hphase]
          split
          · exact ih h
          · refine ih ?_
            rw [(installComposite_deferred p _ _ unit).1,
              (installComposite_deferred p' _ _ unit).1, h]
      | compositeAlone unit =>
          simp only [perform, hphase]
          split
          · exact ih h
          · exact ih h

/-! ## Turns -/

theorem Moves.calls_start {interruptible : Bool} {s next : State} {x : Signal}
    {effects : List Effect} (h : Moves interruptible s x next effects)
    (hcall : effects.findSome? Effect.call? = some .start) :
    x = .dependenciesAvailable ∧ effects = [.injectAndStart] := by
  cases h <;> simp [List.findSome?_cons, Effect.call?] at hcall ⊢

theorem Moves.calls_stop {interruptible : Bool} {s next : State} {x : Signal}
    {effects : List Effect} (h : Moves interruptible s x next effects)
    (hcall : effects.findSome? Effect.call? = some .stop) :
    ∃ interrupted, effects = [.invokeStop interrupted] ∨
      ∃ why, effects = [.failStart why, .invokeStop interrupted] := by
  cases h <;> simp [List.findSome?_cons, Effect.call?] at hcall ⊢

/-- How far a callback came in a turn, and how it came back if it did. -/
inductive Comes (phase : Phase) (asked : Option (Completion × Bool)) (inbox : List Message)
    (c : Controller) : Option (Phase × Completion) → Option (Except Failure Unit) → Prop
  | suspended (callback : Callback) (hc : c.callback = some callback)
    (hp : callback.phase = phase) (hasked : callback.left?.or (completion? callback.rest) = asked)
    (hi : c.inbox = inbox) : Comes phase asked inbox c none none
  | deferred (work : Completion) (interruptible : Bool)
    (hasked : asked = some (work, interruptible))
    (hc : c.callback = none) (hi : c.inbox = inbox)
    (hflag : phase = .start → c.interruptible = interruptible) :
    Comes phase asked inbox c (some (phase, work)) (some (.ok ()))
  | told (returned : Except Failure Unit) (hc : c.callback = none)
    (hi : c.inbox = inbox ++ [.lifecycle (phase.event (phase.verdict asked returned))]) :
    Comes phase asked inbox c none (some returned)

/-- How a callback comes back that a controller calls, unless it is suspended. -/
def Controller.calledBack? (c : Controller) (id : Nat) (phase : Phase) (w : World) :
    Option (Except Failure Unit) :=
  (perform ⟨c.name, id, phase, false⟩ (c.plan.conduct.script phase) (.begin w)).2.outcome?

/-- How a callback comes back that a controller goes on with, unless it is suspended again. -/
def Controller.resumedBack? (c : Controller) (id : Nat) (w : World) (callback : Callback)
    (answer : Option (Awaited × Except Error Answer)) : Option (Except Failure Unit) :=
  (carryOn ⟨c.name, id, callback.phase, callback.interrupted⟩ callback.rest
    { Progress.begin w with
      deferred := callback.deferred, interruptible := callback.interruptible } answer).2.outcome?

namespace Turn

variable {t t₁ t' : Turn}

theorem comes_conclude (t : Turn) (phase : Phase) (left : Option Completion) (interruptible : Bool)
    (outcome : Except Failure Unit)
    (hasked : outcome = .ok () → left.map (·, interruptible) = asked)
    (hc : t.controller.callback = none) (hd : t.deferred = none) :
    Comes phase asked t.controller.inbox (t.conclude phase left interruptible outcome).controller
      (t.conclude phase left interruptible outcome).deferred (some outcome) := by
  cases outcome with
  | error failure =>
      cases phase <;> simp only [conclude, emit, hd] <;> exact .told _ hc rfl
  | ok _ =>
      obtain rfl := hasked rfl
      cases left with
      | none => cases phase <;> simp only [conclude, emit, hd] <;> exact .told (.ok ()) hc rfl
      | some work =>
          cases phase with
          | start => exact .deferred work interruptible rfl hc rfl fun _ => rfl
          | stop => exact .deferred work interruptible rfl hc rfl (by simp)

theorem comes_settleCallback (t : Turn) (context : Context) (result : Progress × Halt)
    (h : KeepsTo asked result) (hd : t.deferred = none) :
    Comes context.phase asked t.controller.inbox (t.settleCallback context result).controller
      (t.settleCallback context result).deferred result.2.outcome? := by
  obtain ⟨p, halt⟩ := result
  cases halt with
  | waiting wait rest =>
      simp only [settleCallback, hd]
      exact .suspended _ rfl rfl h rfl
  | returned outcome =>
      refine comes_conclude
        { t with
          world := p.world, requests := t.requests ++ p.requests
          controller := { t.controller with callback := none } }
        context.phase p.deferred p.interruptible outcome ?_ rfl hd
      rintro rfl
      exact h

theorem comes_call (t : Turn) (id : Nat) (phase : Phase) (interrupted : Bool) (note : Note)
    (actions : List Action) (hd : t.deferred = none) (c : Context) (hp : c.phase = phase)
    (w : World) :
    Comes phase (completion? actions) t.controller.inbox
      (t.call id phase interrupted note actions).controller
      (t.call id phase interrupted note actions).deferred
      (perform c actions (.begin w)).2.outcome? := by
  let context : Context := ⟨t.controller.name, id, phase, interrupted⟩
  let p : Progress := .begin (t.world.record t.controller.name note)
  have hsame : (perform c actions (.begin w)).2.outcome? = (perform context actions p).2.outcome? :=
    outcome?_perform hp actions rfl
  have hkeeps : KeepsTo (completion? actions) (perform context actions p) := by
    simpa [p, Progress.left?, Progress.begin] using keepsTo_perform context actions p
  rw [hsame]
  exact comes_settleCallback t context _ hkeeps hd

/-- Whatever a service runs, its callbacks come back as its script tells. -/
theorem comes_callStart (t : Turn) (id : Nat) (hc : t.controller.callback = none)
    (hd : t.deferred = none) (c : Context) (hp : c.phase = .start) (w : World) :
    Comes .start (completion? (t.controller.plan.conduct.script .start)) t.controller.inbox
      (t.callStart id).controller (t.callStart id).deferred
      (perform c (t.controller.plan.conduct.script .start) (.begin w)).2.outcome? := by
  unfold callStart
  split
  · next hconduct =>
      rw [hconduct]
      exact comes_conclude t .start none false (.ok ()) (fun _ => rfl) hc hd
  · next hconduct =>
      rw [hconduct]
      exact comes_conclude t .start none false (.ok ()) (fun _ => rfl) hc hd
  · next immediate start _ dependencies slots hconduct =>
      rw [hconduct]
      dsimp only [Conduct.script]
      split
      · exact comes_conclude _ .start none false (.ok ()) (fun _ => rfl) hc hd
      · exact comes_call t id .start false _ start hd c hp w

theorem comes_callStop (t : Turn) (id : Nat) (interrupted : Bool)
    (hc : t.controller.callback = none) (hd : t.deferred = none) (c : Context)
    (hp : c.phase = .stop) (w : World) :
    Comes .stop (completion? (t.controller.plan.conduct.script .stop)) t.controller.inbox
      (t.callStop id interrupted).controller (t.callStop id interrupted).deferred
      (perform c (t.controller.plan.conduct.script .stop) (.begin w)).2.outcome? := by
  unfold callStop
  split
  · next hconduct =>
      rw [hconduct]
      exact comes_conclude t .stop none false (.ok ()) (fun _ => rfl) hc hd
  · next hconduct =>
      rw [hconduct]
      exact comes_conclude _ .stop none false (.ok ()) (fun _ => rfl) hc hd
  · next stop dependencies slots hconduct =>
      rw [hconduct]
      exact comes_call t id .stop interrupted _ stop hd c hp w

/-- A `stop` is run by a turn that left its controller alone so far. -/
theorem comes_invokeStop {t : Turn} {c : Controller} {rest : List Message} (hidle : t.Idle)
    (hplan : t.controller.plan = c.plan) (hinbox : t.controller.inbox = rest) (id : Nat)
    (interrupted : Bool) (w : World) :
    Comes .stop (completion? (c.plan.conduct.script .stop)) rest
      (t.invokeStop id interrupted).controller (t.invokeStop id interrupted).deferred
      (c.calledBack? id .stop w) := by
  have hcomes : Comes .stop (completion? (t.controller.plan.conduct.script .stop))
      t.controller.inbox (t.invokeStop id interrupted).controller
      (t.invokeStop id interrupted).deferred
      (perform ⟨c.name, id, .stop, false⟩ (t.controller.plan.conduct.script .stop)
        (.begin w)).2.outcome? :=
    comes_callStop
      { t with
        calledOff := t.controller.pending
        controller := { t.controller with pending := none } }
      id interrupted hidle.callback hidle.deferred ⟨c.name, id, .stop, false⟩ rfl w
  rwa [hplan, hinbox] at hcomes

end Turn

namespace Controller

variable {c : Controller} {e : Event} {rest : List Message} {next : State} {w : World}

/-- The callback a controller invokes when it takes the message before it. A `start` is only invoked
once all its slots are filled. -/
def invokes? (c : Controller) (w : World) : Option Phase :=
  match c.effects.findSome? Effect.call?, c.inbox with
  | some .start, .lifecycle (.dependenciesAvailable values) :: _ =>
    match (Turn.inject c.plan w.cells values).2 with
    | .ok () => some .start
    | .error _ => none
  | called, _ => called

/-- A slot refused its value: the start failed before it was invoked. -/
structure Refused (rest : List Message) (c : Controller) (deferred : Option (Phase × Completion)) :
    Prop where
  idle : c.callback = none
  deferred : deferred = none
  told : ∃ failure, c.inbox = rest ++ [.lifecycle (.startFailed failure)]

open Turn in
theorem comes_start (hi : c.inbox = .lifecycle e :: rest) (hc : c.callback = none)
    (hm : Moves c.interruptible c.state e.signal next c.effects)
    (hcall : c.effects.findSome? Effect.call? = some .start) (id : Nat) (w : World) :
    (c.invokes? w = some .start ∧ Comes .start (completion? (c.plan.conduct.script .start)) rest
      (c.take id w).controller (c.take id w).deferred (c.calledBack? id .start w)) ∨
    (c.invokes? w = none ∧ Refused rest (c.take id w).controller (c.take id w).deferred) := by
  have hclose := closes_report
    (c.effects.foldl (carryOut id e) (.begin w { c with inbox := rest, state := next }))
  rw [take_eq hi hm id w, (hclose _ _).controller, (hclose _ _).deferred]
  obtain ⟨hsignal, heffects⟩ := hm.calls_start hcall
  obtain ⟨values, rfl⟩ : ∃ values, e = .dependenciesAvailable values := by
    cases e <;> simp [Event.signal] at hsignal ⊢
  have hinvokes : c.invokes? w = match (inject c.plan w.cells values).2 with
      | .ok () => some .start
      | .error _ => none := by
    simp only [invokes?, hcall, hi]
  rw [heffects, hinvokes]
  obtain ⟨cells, outcome, hinject⟩ :
      ∃ cells outcome, inject c.plan w.cells values = (cells, outcome) := ⟨_, _, rfl⟩
  simp only [List.foldl_cons, List.foldl_nil, carryOut, injectAndStart, Turn.begin, hinject]
  cases outcome with
  | ok _ =>
      let t₀ : Turn := .begin w { c with inbox := rest, state := next }
      exact .inl ⟨rfl, comes_callStart
        { t₀ with
          world := { w with cells }
          controller := { t₀.controller with resolved := values.map Prod.fst } }
        id hc rfl ⟨c.name, id, .start, false⟩ rfl w⟩
  | error why => exact .inr ⟨rfl, hc, rfl, _, rfl⟩

open Turn in
theorem comes_stop (hi : c.inbox = .lifecycle e :: rest) (hc : c.callback = none)
    (hm : Moves c.interruptible c.state e.signal next c.effects)
    (hcall : c.effects.findSome? Effect.call? = some .stop) (id : Nat) (w : World) :
    c.invokes? w = some .stop ∧ Comes .stop (completion? (c.plan.conduct.script .stop)) rest
      (c.take id w).controller (c.take id w).deferred (c.calledBack? id .stop w) := by
  have hclose := closes_report
    (c.effects.foldl (carryOut id e) (.begin w { c with inbox := rest, state := next }))
  let t₀ : Turn := .begin w { c with inbox := rest, state := next }
  have hidle : t₀.Idle := ⟨hc, rfl, rfl, rfl, rfl⟩
  rw [take_eq hi hm id w, (hclose _ _).controller, (hclose _ _).deferred]
  refine ⟨by simp [invokes?, hcall], ?_⟩
  obtain ⟨interrupted, heffects | ⟨why, heffects⟩⟩ := hm.calls_stop hcall
  · rw [heffects]
    exact comes_invokeStop hidle rfl rfl id interrupted w
  · rw [heffects]
    have hquiet := quiet_failStart t₀ why e
    exact comes_invokeStop (hquiet.idle hidle) hquiet.plan hquiet.inbox id interrupted w

/-- Whoever calls a callback invokes it, or has a slot that refuses its value. -/
theorem comes_take (hi : c.inbox = .lifecycle e :: rest) (hc : c.callback = none)
    (hm : Moves c.interruptible c.state e.signal next c.effects)
    (hcall : c.effects.findSome? Effect.call? = some phase) (id : Nat) (w : World) :
    (c.invokes? w = some phase ∧ Comes phase (completion? (c.plan.conduct.script phase)) rest
      (c.take id w).controller (c.take id w).deferred (c.calledBack? id phase w)) ∨
    (phase = .start ∧ c.invokes? w = none ∧
      Refused rest (c.take id w).controller (c.take id w).deferred) := by
  cases phase with
  | start => exact (comes_start hi hc hm hcall id w).imp_right fun h => ⟨rfl, h⟩
  | stop => exact .inl (comes_stop hi hc hm hcall id w)

open Turn in
/-- A suspended callback goes on. -/
theorem comes_resume {callback : Callback} {answer : Option (Awaited × Except Error Answer)}
    (hwake : c.wakeUp? w = some (callback, answer)) (id : Nat) :
    Comes callback.phase (callback.left?.or (completion? callback.rest)) c.inbox
      (c.resume id w).controller (c.resume id w).deferred
      (c.resumedBack? id w callback answer) := by
  let context : Context :=
    { service := c.name, id, phase := callback.phase, interrupted := callback.interrupted }
  let p : Progress :=
    { Progress.begin w with deferred := callback.deferred, interruptible := callback.interruptible }
  let t := (Turn.begin w c).settleCallback context (carryOn context callback.rest p answer)
  have heq : c.resume id w =
      if t.controller.callback.isSome = true then t else t.report none := by
    simp only [Controller.resume, hwake]
    rfl
  have hclose := closes_report t (t.controller.callback.isSome = true) none
  rw [heq, hclose.controller, hclose.deferred]
  exact comes_settleCallback (.begin w c) context _ (keepsTo_carryOn context callback.rest p answer)
    rfl

end Controller

end ServiceHost
