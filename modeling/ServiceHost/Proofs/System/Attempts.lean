import ServiceHost.Proofs.System.Phases

/-! # How a start ends

How a `start` that asks for nothing comes to its end can be told from its actions: it comes at once,
after waits, or with the work it leaves. The controller that runs it is told just that. -/

namespace ServiceHost

/-- How a `start` ends that asks for nothing, where `left` is the work its completion was deferred to
before; `none` if it asks for something. -/
def startOutcome? (left : Option Completion) : List Action → Option (Except Failure Unit)
  | [] => some (left.elim (.ok ()) fun work => work.ending.outcome .start)
  | action :: rest =>
    match action with
    | .sleep _ | .note _ | .context | .read _ => startOutcome? left rest
    | .fail failure => some (.error failure)
    | .panic cause => some (.error (cause.toFailure .start))
    | .runAsync work _ catching =>
      if left.isSome then
        if catching then startOutcome? left rest else some (.error Error.alreadyDeferred.toFailure)
      else startOutcome? (some ⟨work, false⟩) rest
    | .run work catching =>
      if left.isSome then
        if catching then startOutcome? left rest else some (.error Error.alreadyDeferred.toFailure)
      else startOutcome? (some ⟨work, true⟩) rest
    | .remove .. | .has _ | .install _ | .composite _ | .compositeAlone _ => none

/-- How the `start` of a service ends, if it asks for nothing. -/
def Conduct.startOutcome? : Conduct → Option (Except Failure Unit)
  | .plain | .composite _ => some (.ok ())
  | .scripted immediate start .. =>
    if immediate then some (.ok ()) else ServiceHost.startOutcome? none start

/-- How a service starts that is given these values: a slot refuses one of them, or its `start` is
run. -/
def Plan.startOutcome? (p : Plan) (cells : Cells) (values : List (Name × Value)) :
    Option (Except Failure Unit) :=
  match (Turn.inject p cells values).2 with
  | .ok () => p.conduct.startOutcome?
  | .error e => some (.error e.toFailure)

/-- The event by which a controller is told how a start ended. -/
def Event.ofStart : Except Failure Unit → Event
  | .ok () => .started
  | .error failure => .startFailed failure

variable {o : Except Failure Unit}

/-! ## Callbacks -/

/-- Some actions of a `start` were carried out that comes to this end. -/
structure Progress.Heads (o : Except Failure Unit) (p : Progress) (result : Progress × Halt) :
    Prop where
  requests : result.1.requests = p.requests
  cells : result.1.world.cells = p.world.cells
  halt : match result.2 with
    | .waiting wait rest => startOutcome? result.1.deferred rest = some o ∧
        ∀ ticket awaited, wait ≠ .answer ticket awaited
    | .returned (.ok ()) =>
      o = result.1.deferred.elim (.ok ()) fun work => work.ending.outcome .start
    | .returned (.error failure) => o = .error failure

theorem Progress.Heads.of_begun {p p' : Progress} {result : Progress × Halt}
    (h : p'.Heads o result) (hr : p'.requests = p.requests)
    (hc : p'.world.cells = p.world.cells) : p.Heads o result :=
  ⟨h.requests.trans hr, h.cells.trans hc, h.halt⟩

theorem heads_perform (c : Context) (hphase : c.phase = .start) (actions : List Action)
    (p : Progress) (h : startOutcome? p.deferred actions = some o) :
    p.Heads o (perform c actions p) := by
  induction actions generalizing p with
  | nil =>
      obtain rfl := Option.some.inj h
      simp only [perform, Progress.finish]
      split <;> exact ⟨rfl, rfl, rfl⟩
  | cons action rest ih =>
      have hrecord : ∀ note, startOutcome? p.deferred rest = some o →
          p.Heads o (perform c rest (p.record c note)) := fun note h =>
        (ih (p.record c note) h).of_begun rfl rfl
      -- completion is deferred, or that is refused
      have hdefer : ∀ (work : Completion) (interruptible catching : Bool),
          (if p.deferred.isSome = true then
              if catching = true then startOutcome? p.deferred rest
              else some (.error Error.alreadyDeferred.toFailure)
            else startOutcome? (some work) rest) = some o →
          p.Heads o (deferThen (perform c rest) c work interruptible catching p) := by
        intro work interruptible catching h
        simp only [deferThen, Progress.defer]
        split at h
        · next hsome =>
            simp only [hsome, if_true]
            split at h
            · next hcatching =>
                simp only [hcatching, if_true]
                exact hrecord _ h
            · next hcatching =>
                simp only [hcatching, if_false, Bool.false_eq_true]
                exact ⟨rfl, rfl, (Option.some.inj h).symm⟩
        · next hnone =>
            simp only [hnone, if_false, Bool.false_eq_true]
            exact (ih { p with deferred := some work, interruptible } h).of_begun rfl rfl
      cases action with
      | sleep millis =>
          cases millis with
          | zero => exact ih p h
          | succ k => exact ⟨rfl, rfl, h, by simp⟩
      | note text | context | read label => exact hrecord _ h
      | fail failure => exact ⟨rfl, rfl, (Option.some.inj h).symm⟩
      | panic cause => exact ⟨rfl, rfl, hphase ▸ (Option.some.inj h).symm⟩
      | runAsync work interruptible catching => exact hdefer ⟨work, false⟩ interruptible catching h
      | run work catching => exact hdefer ⟨work, true⟩ false catching h
      | remove name awaited | has name | install service | composite unit | compositeAlone unit =>
          cases h

/-- A `start` is suspended that comes to this end. -/
structure Callback.Heads (o : Except Failure Unit) (callback : Callback) : Prop where
  called : callback.phase = .start
  rest : startOutcome? callback.deferred callback.rest = some o
  unasking : ∀ ticket awaited, callback.wait ≠ .answer ticket awaited

theorem Callback.Heads.alarm {c : Controller}
    (h : ∀ callback, c.callback = some callback → callback.Heads o) :
    ∀ callback, c.alarm.callback = some callback → callback.Heads o := by
  intro callback hc
  obtain ⟨k, hk, rfl⟩ := Option.map_eq_some_iff.mp hc
  have hheads := h k hk
  split
  · exact ⟨hheads.called, hheads.rest, by simp⟩
  · exact hheads

/-! ## Turns -/

/-- How far a `start` came that comes to this end. -/
inductive Nears (o : Except Failure Unit) (inbox : List Message) (c : Controller) :
    Option (Phase × Completion) → Prop
  | suspended (callback : Callback) (hc : c.callback = some callback) (hk : callback.Heads o)
      (hi : c.inbox = inbox) : Nears o inbox c none
  | returned (hc : c.callback = none) (hi : c.inbox = inbox ++ [.lifecycle (.ofStart o)]) :
      Nears o inbox c none
  | deferred (work : Completion) (hw : work.ending.outcome .start = o) (hc : c.callback = none)
      (hi : c.inbox = inbox) : Nears o inbox c (some (.start, work))

theorem Nears.callback {inbox : List Message} {c : Controller}
    {deferred : Option (Phase × Completion)}
    (h : Nears o inbox c deferred) :
    ∀ callback, c.callback = some callback → callback.Heads o := by
  intro callback hcallback
  cases h with
  | suspended k hc hk => exact Option.some.inj (hc.symm.trans hcallback) ▸ hk
  | returned hc | deferred work hw hc => simp [hc] at hcallback

theorem Nears.events {inbox : List Message} {c : Controller}
    {deferred : Option (Phase × Completion)}
    (h : Nears o inbox c deferred) {e : Event} (he : .lifecycle e ∈ c.inbox) :
    .lifecycle e ∈ inbox ∨ e = .ofStart o := by
  cases h with
  | suspended k hc hk hi => exact .inl (hi ▸ he)
  | deferred work hw hc hi => exact .inl (hi ▸ he)
  | returned hc hi => simpa [hi] using he

theorem Nears.work {inbox : List Message} {c : Controller} {phase : Phase} {work : Completion}
    (h : Nears o inbox c (some (phase, work))) :
    phase = .start ∧ work.ending.outcome .start = o := by
  cases h with
  | deferred work hw => exact ⟨rfl, hw⟩

namespace Turn

/-- A turn goes on by running a `start` that comes to this end. -/
structure Attempts (o : Except Failure Unit) (t t' : Turn) : Prop where
  resolved : t'.controller.resolved = t.controller.resolved
  requests : t'.requests = t.requests
  cells : t'.world.cells = t.world.cells
  nears : Nears o t.controller.inbox t'.controller t'.deferred

variable {t t₁ t' : Turn}

theorem Attempts.of_begun (h : t₁.Attempts o t')
    (hp : t₁.controller.resolved = t.controller.resolved)
    (hi : t₁.controller.inbox = t.controller.inbox) (hr : t₁.requests = t.requests)
    (hc : t₁.world.cells = t.world.cells) : t.Attempts o t' :=
  ⟨h.resolved.trans hp, h.requests.trans hr, h.cells.trans hc, hi ▸ h.nears⟩

theorem Attempts.closes (h : t.Attempts o t₁) (hclose : t₁.Closes t') : t.Attempts o t' :=
  ⟨hclose.controller ▸ h.resolved, hclose.requests.trans h.requests, hclose.world ▸ h.cells,
    hclose.controller ▸ hclose.deferred ▸ h.nears⟩

theorem attempts_conclude (t : Turn) (work : Option Completion) (interruptible : Bool)
    (outcome : Except Failure Unit)
    (ho : o = match outcome with
      | .ok () => work.elim (.ok ()) fun w => w.ending.outcome .start
      | .error failure => .error failure)
    (hc : t.controller.callback = none) (hd : t.deferred = none) :
    t.Attempts o (t.conclude .start work interruptible outcome) := by
  have hemit : t.Attempts o (t.emit (.ofStart o)) := by
    refine ⟨rfl, rfl, rfl, ?_⟩
    simp only [emit, hd]
    exact .returned hc rfl
  cases outcome with
  | error failure =>
      obtain rfl := ho
      exact hemit
  | ok _ =>
      cases work with
      | none =>
          obtain rfl := ho
          exact hemit
      | some work => exact ⟨rfl, rfl, rfl, .deferred work ho.symm hc rfl⟩

theorem attempts_settleCallback (t : Turn) (context : Context) (hphase : context.phase = .start)
    (result : Progress × Halt) {p : Progress} (hr : p.requests = [])
    (hc : p.world.cells = t.world.cells) (h : p.Heads o result) (hd : t.deferred = none) :
    t.Attempts o (t.settleCallback context result) := by
  obtain ⟨p', halt⟩ := result
  have hreq : p'.requests = [] := h.requests.trans hr
  have hcells : p'.world.cells = t.world.cells := h.cells.trans hc
  cases halt with
  | waiting wait rest =>
      refine ⟨rfl, by simp [settleCallback, hreq], hcells, ?_⟩
      simp only [settleCallback, hd]
      exact .suspended _ rfl ⟨hphase, h.halt.1, h.halt.2⟩ rfl
  | returned outcome =>
      simp only [settleCallback, hphase]
      have hconclude : Turn.Attempts o
          { t with
            world := p'.world, requests := t.requests ++ p'.requests
            controller := { t.controller with callback := none } }
          _ := attempts_conclude _ p'.deferred p'.interruptible outcome ?_ rfl hd
      refine hconclude.of_begun rfl rfl (by simp [hreq]) hcells
      cases outcome <;> exact h.halt

theorem attempts_call (t : Turn) (id : Nat) (note : Note) (actions : List Action)
    (h : startOutcome? none actions = some o) (hd : t.deferred = none) :
    t.Attempts o (t.call id .start false note actions) :=
  attempts_settleCallback t ⟨t.controller.name, id, .start, false⟩ rfl _
    (p := .begin (t.world.record t.controller.name note)) rfl rfl (heads_perform _ rfl _ _ h) hd

theorem attempts_callStart (t : Turn) (id : Nat)
    (h : t.controller.plan.conduct.startOutcome? = some o) (hc : t.controller.callback = none)
    (hd : t.deferred = none) : t.Attempts o (t.callStart id) := by
  unfold callStart
  split
  · next hconduct =>
      rw [hconduct] at h
      exact attempts_conclude t none false (.ok ()) (Option.some.inj h).symm hc hd
  · next hconduct =>
      rw [hconduct] at h
      exact attempts_conclude t none false (.ok ()) (Option.some.inj h).symm hc hd
  · next immediate start _ dependencies slots hconduct =>
      rw [hconduct] at h
      simp only [Conduct.startOutcome?] at h
      dsimp only
      split
      · next him =>
          rw [if_pos him] at h
          refine (attempts_conclude _ none false (.ok ()) (Option.some.inj h).symm ?_
            ?_).of_begun ?_ ?_ ?_ ?_
          all_goals first | exact hc | exact hd | rfl
      · next hno =>
          rw [if_neg hno] at h
          exact attempts_call t id _ start h hd

end Turn

namespace Controller

variable {c : Controller} {w : World}

open Turn in
/-- Whoever is given the values it depends on fills its slots and starts. -/
theorem attempts_take {values : List (Name × Value)} {rest : List Message} {next : State}
    (hi : c.inbox = .lifecycle (.dependenciesAvailable values) :: rest)
    (hc : c.callback = none)
    (hm : Moves c.interruptible c.state .dependenciesAvailable next c.effects)
    (ho : c.plan.startOutcome? w.cells values = some o) (id : Nat) :
    next = .starting false ∧ c.effects = [.injectAndStart] ∧
      Attempts o
        { Turn.begin w { c with inbox := rest, state := next, resolved := values.map Prod.fst } with
          world := { w with cells := (inject c.plan w.cells values).1 } } (c.take id w) := by
  have htake := take_eq hi hm id w
  have hclose := closes_report
    (c.effects.foldl (carryOut id (.dependenciesAvailable values))
      (.begin w { c with inbox := rest, state := next }))
  generalize hstate : c.state = state at hm
  generalize c.effects = effects at hm htake hclose
  cases hm with
  | start =>
      refine ⟨rfl, rfl, ?_⟩
      rw [htake]
      refine Attempts.closes ?_ (hclose _ _)
      simp only [List.foldl_cons, List.foldl_nil, carryOut, injectAndStart]
      simp only [Plan.startOutcome?] at ho
      dsimp only [Turn.begin]
      generalize inject c.plan w.cells values = result at ho
      obtain ⟨cells, outcome⟩ := result
      cases outcome with
      | ok _ => exact attempts_callStart _ id ho hc rfl
      | error e =>
          obtain rfl := Option.some.inj ho
          exact ⟨rfl, rfl, rfl, .returned hc rfl⟩
  | abort hx | cut asked hx | note asked hx | drain hx => simp [Signal.Stops] at hx

open Turn in
/-- A suspended `start` goes on. -/
theorem attempts_resume {callback : Callback} {answer : Option (Awaited × Except Error Answer)}
    (hwake : c.wakeUp? w = some (callback, answer)) (h : callback.Heads o) (id : Nat) :
    Attempts o (.begin w c) (c.resume id w) := by
  have hanswer : answer = none := by
    simp only [wakeUp?, callback_of_wakeUp? hwake] at hwake
    split at hwake
    · cases hwake
    · cases hwake
      rfl
    · next ticket awaited hwait => exact absurd hwait (h.unasking ticket awaited)
  subst hanswer
  let context : Context :=
    { service := c.name, id, phase := callback.phase, interrupted := callback.interrupted }
  let p : Progress :=
    { Progress.begin w with deferred := callback.deferred, interruptible := callback.interruptible }
  have hheads : p.Heads o (perform context callback.rest p) :=
    heads_perform context h.called callback.rest p h.rest
  let t := (Turn.begin w c).settleCallback context (perform context callback.rest p)
  have heq : c.resume id w =
      if t.controller.callback.isSome = true then t else t.report none := by
    simp only [Controller.resume, hwake]
    rfl
  rw [heq]
  exact (attempts_settleCallback (.begin w c) context h.called _ rfl rfl hheads rfl).closes
    (closes_report t _ none)

end Controller

end ServiceHost
