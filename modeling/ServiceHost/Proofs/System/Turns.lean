import ServiceHost.Controller
import ServiceHost.Proofs.Graph.Signals
import ServiceHost.Proofs.Lifecycle
import ServiceHost.Proofs.System.Callbacks

/-! # What a turn of a controller leaves

A turn in which a signal means something leads to the state the lifecycle tells, leaves what its
effects ask for, and reports the state unless the phase is the same or a callback is suspended. -/

namespace ServiceHost

/-- A signal by which a controller tells itself how a callback ended. -/
def Phase.Outcome (phase : Phase) (x : Signal) : Prop :=
  match phase with
  | .start => x = .started ∨ x = .startFailed
  | .stop => x = .stopped

/-- The callback an effect calls. -/
def Effect.call? : Effect → Option Phase
  | .injectAndStart => some .start
  | .invokeStop _ => some .stop
  | _ => none

/-- The event an effect sends. -/
def Effect.emit? : Effect → Option Event
  | .emitStopped => some .stopped
  | .emitRemoved => some .removed
  | _ => none

/-- How far a callback came: it is suspended, or it left work to a new task, or the controller sent
itself the outcome. -/
inductive Came (phase : Phase) (inbox : List Message) (c : Controller) :
    Option (Phase × Completion) → Prop
  | suspended (callback : Callback) (hc : c.callback = some callback)
      (hp : callback.phase = phase) (hi : c.inbox = inbox) : Came phase inbox c none
  | returned (e : Event) (he : phase.Outcome e.signal) (hc : c.callback = none)
      (hi : c.inbox = inbox ++ [.lifecycle e]) : Came phase inbox c none
  | deferred (work : Completion) (hc : c.callback = none) (hi : c.inbox = inbox) :
      Came phase inbox c (some (phase, work))

/-- One controller comes from another without moving on or being told anything. -/
structure Controller.Alike (c c' : Controller) : Prop where
  plan : c'.plan = c.plan
  state : c'.state = c.state
  install : c'.install = c.install
  pending : c'.pending = c.pending
  ended : c'.ended = c.ended

theorem Controller.Alike.refl (c : Controller) : c.Alike c := ⟨rfl, rfl, rfl, rfl, rfl⟩

theorem Controller.Alike.trans {c c' c'' : Controller} (h : c.Alike c') (h' : c'.Alike c'') :
    c.Alike c'' :=
  ⟨h'.plan.trans h.plan, h'.state.trans h.state, h'.install.trans h.install,
    h'.pending.trans h.pending, h'.ended.trans h.ended⟩

namespace Turn

/-- A turn goes on by running a callback, from its beginning or from where it was suspended. -/
structure Runs (phase : Phase) (t t' : Turn) : Prop where
  alike : t.controller.Alike t'.controller
  came : Came phase t.controller.inbox t'.controller t'.deferred
  asks : ∃ asked, t'.requests = t.requests ++ asked ∧ Asked t.world asked t'.world
  calledOff : t'.calledOff = t.calledOff
  reported : t'.reported = t.reported

variable {t t' : Turn} {phase : Phase}

/-! ## Callbacks -/

theorem runs_emit (t : Turn) {e : Event} (he : phase.Outcome e.signal)
    (hc : t.controller.callback = none) (hd : t.deferred = none) : t.Runs phase (t.emit e) where
  alike := ⟨rfl, rfl, rfl, rfl, rfl⟩
  came := by
    simp only [emit, hd]
    exact .returned e he hc rfl
  asks := ⟨[], by simp [emit], .of_eq rfl⟩
  calledOff := rfl
  reported := rfl

/-- A turn that begins like another, after the world has seen some requests. -/
theorem Runs.of_begun {t₁ : Turn} (h : t₁.Runs phase t') (ha : t.controller.Alike t₁.controller)
    (hi : t₁.controller.inbox = t.controller.inbox) {l : List Request}
    (hr : t₁.requests = t.requests ++ l) (hw : Asked t.world l t₁.world)
    (hc : t₁.calledOff = t.calledOff) (hp : t₁.reported = t.reported) : t.Runs phase t' where
  alike := ha.trans h.alike
  came := hi ▸ h.came
  asks := by
    obtain ⟨asked', hr', hw'⟩ := h.asks
    exact ⟨l ++ asked', by rw [hr', hr, List.append_assoc], hw.trans hw'⟩
  calledOff := h.calledOff.trans hc
  reported := h.reported.trans hp

theorem runs_conclude (t : Turn) (phase : Phase) (work : Option Completion) (interruptible : Bool)
    (outcome : Except Failure Unit) (hc : t.controller.callback = none) (hd : t.deferred = none) :
    t.Runs phase (t.conclude phase work interruptible outcome) := by
  cases phase with
  | start =>
      cases outcome with
      | error failure => exact runs_emit t (.inr rfl) hc hd
      | ok u =>
          cases work with
          | none => exact runs_emit t (.inl rfl) hc hd
          | some work =>
              exact ⟨⟨rfl, rfl, rfl, rfl, rfl⟩, .deferred work hc rfl,
                ⟨[], by simp [conclude], .of_eq rfl⟩, rfl, rfl⟩
  | stop =>
      cases outcome with
      | error failure =>
          let logged := { t with world := t.world.logStopFailure t.controller.name failure }
          have h : logged.Runs .stop (logged.emit .stopped) := runs_emit logged rfl hc hd
          exact h.of_begun (.refl _) rfl (l := []) (by simp [logged]) (.of_eq rfl) rfl rfl
      | ok u =>
          cases work with
          | none => exact runs_emit t rfl hc hd
          | some work =>
              exact ⟨.refl _, .deferred work hc rfl, ⟨[], by simp [conclude], .of_eq rfl⟩, rfl,
                rfl⟩

theorem runs_settleCallback (t : Turn) (context : Context) (result : Progress × Halt)
    {p : Progress} (hr : p.requests = []) (hw : p.world.pledges = t.world.pledges)
    (hasks : p.Asks result.1) (hd : t.deferred = none) :
    t.Runs context.phase (t.settleCallback context result) := by
  obtain ⟨p', halt⟩ := result
  obtain ⟨asked, hasked, hworld⟩ := hasks
  rw [hr, List.nil_append] at hasked
  have hworld' : Asked t.world asked p'.world := by
    simpa using (Asked.of_eq hw).trans hworld
  cases halt with
  | waiting wait rest =>
      have hreq : p'.requests = asked := hasked
      refine ⟨⟨rfl, rfl, rfl, rfl, rfl⟩, ?_, ⟨asked, by simp [settleCallback, hreq], hworld'⟩,
        rfl, rfl⟩
      simp only [settleCallback, hd]
      exact .suspended _ rfl rfl rfl
  | returned outcome =>
      have h := runs_conclude
        { t with
          world := p'.world, requests := t.requests ++ p'.requests
          controller := { t.controller with callback := none } }
        context.phase p'.deferred p'.interruptible outcome rfl hd
      exact h.of_begun ⟨rfl, rfl, rfl, rfl, rfl⟩ rfl (by rw [hasked]) hworld' rfl rfl

theorem runs_call (t : Turn) (id : Nat) (phase : Phase) (interrupted : Bool) (note : Note)
    (actions : List Action) (hd : t.deferred = none) :
    t.Runs phase (t.call id phase interrupted note actions) :=
  runs_settleCallback t ⟨t.controller.name, id, phase, interrupted⟩ _
    (p := .begin (t.world.record t.controller.name note)) rfl rfl (performs_perform _ _ _).asks hd

theorem runs_callStart (t : Turn) (id : Nat) (hc : t.controller.callback = none)
    (hd : t.deferred = none) : t.Runs .start (t.callStart id) := by
  unfold callStart
  split
  · exact runs_conclude t _ _ _ _ hc hd
  · exact runs_conclude t _ _ _ _ hc hd
  · next immediate start _ dependencies slots _ =>
      dsimp only
      split
      · refine (runs_conclude _ .start none false (.ok ()) ?_ ?_).of_begun (l := [])
          (.refl _) ?_ ?_ (.of_eq rfl) ?_ ?_
        all_goals first | exact hc | exact hd | simp
      · exact runs_call t id .start false _ start hd

theorem runs_callStop (t : Turn) (id : Nat) (interrupted : Bool)
    (hc : t.controller.callback = none) (hd : t.deferred = none) :
    t.Runs .stop (t.callStop id interrupted) := by
  unfold callStop
  split
  · exact runs_conclude t _ _ _ _ hc hd
  · next children _ =>
      have h : ∀ (l : List Name) (p : Progress),
          p.Asks (l.foldl (fun p child => (p.ask none (.remove child)).2) p) := by
        intro l
        induction l with
        | nil => exact fun p => .of_eq rfl rfl
        | cons m l ih =>
            intro p
            exact (Progress.asks_ask p none (.remove m) fun _ => rfl).trans (ih _)
      obtain ⟨asked, hr, hw⟩ := h children (.begin t.world)
      rw [show (Progress.begin t.world).requests = [] from rfl, List.nil_append] at hr
      refine (runs_conclude _ .stop none false (.ok ()) ?_ ?_).of_begun (l := asked)
        (.refl _) ?_ ?_ hw ?_ ?_
      all_goals first | exact hc | exact hd | simp [hr]
  · exact runs_call t id .stop interrupted _ _ hd

theorem runs_injectAndStart (t : Turn) (id : Nat) (values : List (Name × Value))
    (hc : t.controller.callback = none) (hd : t.deferred = none) :
    t.Runs .start (t.injectAndStart id values) := by
  unfold injectAndStart
  cases inject t.controller.plan t.world.cells values with
  | mk cells outcome =>
      cases outcome with
      | ok u =>
          refine (runs_callStart _ id ?_ ?_).of_begun (l := []) ⟨rfl, rfl, rfl, rfl, rfl⟩ rfl ?_
            (.of_eq rfl) rfl rfl
          all_goals first | exact hc | exact hd | simp
      | error e =>
          have he : Phase.Outcome .start (Event.startFailed e.toFailure).signal := .inr rfl
          refine (runs_emit _ he ?_ ?_).of_begun (l := []) ⟨rfl, rfl, rfl, rfl, rfl⟩ rfl ?_
            (.of_eq rfl) rfl rfl
          all_goals first | exact hc | exact hd | simp

/-! ## Effects -/

/-- The promise made to the installer is kept as it is, or settled and given up. -/
def Answers (w : World) (install : Option Ticket) (w' : World) (install' : Option Ticket) : Prop :=
  (w'.pledges = w.pledges ∧ install' = install) ∨
    ∃ ticket outcome, install = some ticket ∧ install' = none ∧
      w'.pledges = (w.settle ticket outcome).pledges

/-- The effects of an event were carried out in a turn in which nothing had happened yet. -/
structure Worked (t : Turn) (effects : List Effect) (t' : Turn) : Prop where
  plan : t'.controller.plan = t.controller.plan
  state : t'.controller.state = t.controller.state
  ended : t'.controller.ended = (t.controller.ended || decide (.terminate ∈ effects))
  left : match effects.findSome? Effect.call? with
    | some phase => Came phase t.controller.inbox t'.controller t'.deferred
    | none => t'.controller.inbox = t.controller.inbox ++
        (effects.filterMap Effect.emit?).map .lifecycle ∧
      t'.controller.callback = none ∧ t'.deferred = none
  called : if effects.findSome? Effect.call? = some .stop then
      t'.calledOff = t.controller.pending ∧ t'.controller.pending = none
    else t'.calledOff = none ∧ t'.controller.pending = t.controller.pending
  asks : ∃ w, Answers t.world t.controller.install w t'.controller.install ∧
    Asked w t'.requests t'.world
  reported : t'.reported = none

/-- Nothing has happened in a turn yet. -/
structure Idle (t : Turn) : Prop where
  callback : t.controller.callback = none
  calledOff : t.calledOff = none
  requests : t.requests = []
  deferred : t.deferred = none
  reported : t.reported = none

/-- A turn goes on without moving the controller, except that its installer may be answered. -/
structure Quiet (t t' : Turn) : Prop where
  plan : t'.controller.plan = t.controller.plan
  state : t'.controller.state = t.controller.state
  ended : t'.controller.ended = t.controller.ended
  inbox : t'.controller.inbox = t.controller.inbox
  pending : t'.controller.pending = t.controller.pending
  answers : Answers t.world t.controller.install t'.world t'.controller.install
  idle : t.Idle → t'.Idle

theorem settle_pledges_congr {w w' : World} (h : w'.pledges = w.pledges) (ticket : Ticket)
    (outcome : Except Error Answer) :
    (w'.settle ticket outcome).pledges = (w.settle ticket outcome).pledges := by
  unfold World.settle
  rw [h]
  cases w.pledges[ticket]? with
  | none => exact h
  | some pledge =>
      dsimp only
      split
      · rfl
      · exact h

theorem quiet_answerInstall (t : Turn) (outcome : Except Error Answer) :
    t.Quiet (t.answerInstall outcome) := by
  unfold answerInstall
  cases hi : t.controller.install with
  | none => exact ⟨rfl, rfl, rfl, rfl, rfl, .inl ⟨rfl, rfl⟩, id⟩
  | some ticket =>
      exact ⟨rfl, rfl, rfl, rfl, rfl, .inr ⟨ticket, outcome, hi, rfl, rfl⟩,
        fun h => ⟨h.callback, h.calledOff, h.requests, h.deferred, h.reported⟩⟩

theorem Quiet.of_world {t t₁ t' : Turn} (h : t₁.Quiet t') {w : World} (ht : t₁ = { t with world := w })
    (hw : w.pledges = t.world.pledges) : t.Quiet t' := by
  subst ht
  refine ⟨h.plan, h.state, h.ended, h.inbox, h.pending, ?_, ?_⟩
  · rcases h.answers with ⟨hp, hi⟩ | ⟨ticket, outcome, hi, hi', hp⟩
    · exact .inl ⟨hp.trans hw, hi⟩
    · exact .inr ⟨ticket, outcome, hi, hi', hp.trans (settle_pledges_congr hw ticket outcome)⟩
  · exact fun hid => h.idle ⟨hid.callback, hid.calledOff, hid.requests, hid.deferred, hid.reported⟩

theorem quiet_completeStart (t : Turn) : t.Quiet t.completeStart := by
  unfold completeStart
  split
  · exact (quiet_answerInstall _ _).of_world rfl rfl
  · exact quiet_answerInstall t _

theorem quiet_failStart (t : Turn) (why : StartAbort) (event : Event) :
    t.Quiet (t.failStart why event) := by
  unfold failStart
  dsimp only
  split
  · exact (quiet_answerInstall _ _).of_world rfl rfl
  · exact quiet_answerInstall t _
  · exact quiet_answerInstall t _

theorem quiet_releaseInjected (t : Turn) : t.Quiet t.releaseInjected :=
  ⟨rfl, rfl, rfl, rfl, rfl, .inl ⟨rfl, rfl⟩,
    fun h => ⟨h.callback, h.calledOff, h.requests, h.deferred, h.reported⟩⟩

variable {t₁ : Turn} {pre : List Effect}

/-- Effects that neither call a callback nor send an event, nor end the controller. -/
def Silent (pre : List Effect) : Prop :=
  ∀ e ∈ pre, e.call? = none ∧ e.emit? = none ∧ e ≠ .terminate

theorem Silent.findSome? (h : Silent pre) (effects : List Effect) :
    (pre ++ effects).findSome? Effect.call? = effects.findSome? Effect.call? := by
  have hnone : pre.findSome? Effect.call? = none := List.findSome?_eq_none_iff.mpr fun e he => (h e he).1
  rw [List.findSome?_append, hnone, Option.none_or]

theorem Silent.filterMap (h : Silent pre) (effects : List Effect) :
    (pre ++ effects).filterMap Effect.emit? = effects.filterMap Effect.emit? := by
  have hnil : pre.filterMap Effect.emit? = [] := List.filterMap_eq_nil_iff.mpr fun e he => (h e he).2.1
  rw [List.filterMap_append, hnil, List.nil_append]

theorem Silent.mem_terminate (h : Silent pre) (effects : List Effect) :
    .terminate ∈ pre ++ effects ↔ .terminate ∈ effects := by
  rw [List.mem_append]
  exact or_iff_right fun hm => (h _ hm).2.2 rfl

theorem Quiet.refl (t : Turn) : t.Quiet t := ⟨rfl, rfl, rfl, rfl, rfl, .inl ⟨rfl, rfl⟩, id⟩

theorem worked_silent (h : t.Quiet t₁) (hid : t.Idle) (hpre : Silent pre) : Worked t pre t₁ := by
  have hid₁ := h.idle hid
  have hcall := hpre.findSome? []
  have hemit := hpre.filterMap []
  have hend := hpre.mem_terminate []
  simp only [List.append_nil] at hcall hemit hend
  refine ⟨h.plan, h.state, by simp [h.ended, hend], ?_, ?_, ?_, hid₁.reported⟩
  · simp [hcall, hemit, h.inbox, hid₁.callback, hid₁.deferred]
  · simp [hcall, h.pending, hid₁.calledOff]
  · exact ⟨t₁.world, h.answers, by rw [hid₁.requests]; exact .of_eq rfl⟩

theorem worked_emit (h : t.Quiet t₁) (hid : t.Idle) (hpre : Silent pre) {effect : Effect} {e : Event}
    (he : effect.emit? = some e) : Worked t (pre ++ [effect]) (t₁.emit e) := by
  have hid₁ := h.idle hid
  have hcall : effect.call? = none := by cases effect <;> simp_all [Effect.emit?, Effect.call?]
  have hne : effect ≠ .terminate := by rintro rfl; simp [Effect.emit?] at he
  refine ⟨h.plan, h.state, ?_, ?_, ?_, ?_, hid₁.reported⟩
  · simp only [hpre.mem_terminate, List.mem_singleton, Ne.symm hne, decide_false, Bool.or_false]
    exact h.ended
  · simp only [hpre.findSome?, hpre.filterMap]
    simp [hcall, he, emit, h.inbox, hid₁.callback, hid₁.deferred]
  · simp [hpre.findSome?, hcall, emit, h.pending, hid₁.calledOff]
  · exact ⟨t₁.world, h.answers, by simp only [emit, hid₁.requests]; exact .of_eq rfl⟩

theorem worked_start (h : t.Quiet t₁) (hid : t.Idle) (hpre : Silent pre)
    (hr : t₁.Runs .start t') : Worked t (pre ++ [.injectAndStart]) t' := by
  have hid₁ := h.idle hid
  obtain ⟨asked, hreq, hasked⟩ := hr.asks
  rw [hid₁.requests, List.nil_append] at hreq
  refine ⟨hr.alike.plan.trans h.plan, hr.alike.state.trans h.state, ?_, ?_, ?_, ?_,
    hr.reported.trans hid₁.reported⟩
  · simp [hpre.mem_terminate, hr.alike.ended, h.ended]
  · simpa [hpre.findSome?, Effect.call?, ← h.inbox] using hr.came
  · simp [hpre.findSome?, Effect.call?, hr.calledOff, hr.alike.pending, h.pending,
      hid₁.calledOff]
  · exact ⟨t₁.world, by rw [hr.alike.install]; exact h.answers, hreq ▸ hasked⟩

theorem worked_stop (h : t.Quiet t₁) (hid : t.Idle) (hpre : Silent pre) (id : Nat)
    (interrupted : Bool) :
    Worked t (pre ++ [.invokeStop interrupted]) (t₁.invokeStop id interrupted) := by
  have hid₁ := h.idle hid
  have hr : Runs .stop
      { t₁ with
        calledOff := t₁.controller.pending
        controller := { t₁.controller with pending := none } }
      (t₁.invokeStop id interrupted) :=
    runs_callStop _ id interrupted hid₁.callback hid₁.deferred
  obtain ⟨asked, hreq, hasked⟩ := hr.asks
  rw [hid₁.requests, List.nil_append] at hreq
  refine ⟨hr.alike.plan.trans h.plan, hr.alike.state.trans h.state, ?_, ?_, ?_, ?_,
    hr.reported.trans hid₁.reported⟩
  · simpa [hpre.mem_terminate] using hr.alike.ended.trans h.ended
  · simpa [hpre.findSome?, Effect.call?, ← h.inbox] using hr.came
  · simpa [hpre.findSome?, Effect.call?, ← h.pending] using
      And.intro hr.calledOff hr.alike.pending
  · exact ⟨t₁.world, by rw [hr.alike.install]; exact h.answers, hreq ▸ hasked⟩

/-- The effects of a move are carried out as they say. -/
theorem worked_foldl (t : Turn) (id : Nat) {event : Event} {state next : State}
    {interruptible : Bool} {effects : List Effect}
    (h : Moves interruptible state event.signal next effects) (hid : t.Idle) :
    Worked t effects (effects.foldl (carryOut id event) t) := by
  have hnil : Silent [] := by simp [Silent]
  have hfail : ∀ why, Silent [.failStart why] := by simp [Silent, Effect.call?, Effect.emit?]
  have hcomplete : Silent [.completeStart] := by simp [Silent, Effect.call?, Effect.emit?]
  have hrelease : Silent [.releaseInjected] := by simp [Silent, Effect.call?, Effect.emit?]
  have hstopped : Effect.emit? .emitStopped = some .stopped := rfl
  have hremoved : Effect.emit? .emitRemoved = some .removed := rfl
  generalize hx : event.signal = x at h
  cases h with
  | start =>
      cases event with
      | dependenciesAvailable values =>
          exact worked_start (.refl t) hid hnil
            (runs_injectAndStart t id values hid.callback hid.deferred)
      | _ => cases hx
  | abort _ =>
      exact worked_emit (quiet_failStart t .interrupted event) hid (hfail _) hremoved
  | complete => exact worked_silent (quiet_completeStart t) hid hcomplete
  | late =>
      exact worked_stop (quiet_failStart t .removedWhileStarting event) hid (hfail _) id false
  | fail asked => exact worked_emit (quiet_failStart t .failed event) hid (hfail _) hstopped
  | cut asked _ _ =>
      exact worked_stop (quiet_failStart t .interrupted event) hid (hfail _) id true
  | note asked _ _ => exact worked_silent (.refl t) hid hnil
  | drain _ => exact worked_silent (.refl t) hid hnil
  | release => exact worked_stop (.refl t) hid hnil id false
  | vanish => exact worked_emit (quiet_releaseInjected t) hid hrelease hremoved
  | last =>
      refine ⟨rfl, rfl, by simp [carryOut], ?_, ?_, ?_, hid.reported⟩
      · simp [Effect.call?, Effect.emit?, carryOut, hid.callback, hid.deferred]
      · simp [Effect.call?, carryOut, hid.calledOff]
      · refine ⟨t.world, .inl ⟨rfl, rfl⟩, ?_⟩
        simp only [List.foldl_cons, List.foldl_nil, carryOut, hid.requests]
        exact .of_eq rfl

/-! ## Whole turns -/

/-- A turn in which a message is only taken, or put on a roster. -/
structure Skipped (w : World) (c : Controller) (rest : List Message) (t : Turn) : Prop where
  controller : t.controller = { c with inbox := rest }
  pledges : t.world.pledges = w.pledges
  calledOff : t.calledOff = none
  requests : t.requests = []
  deferred : t.deferred = none
  reported : t.reported = none

/-- A turn in which a signal makes a move. -/
structure Moved (w : World) (c : Controller) (rest : List Message) (next : State)
    (effects : List Effect) (t : Turn) : Prop where
  plan : t.controller.plan = c.plan
  state : t.controller.state = next
  ended : t.controller.ended = (c.ended || decide (.terminate ∈ effects))
  left : match effects.findSome? Effect.call? with
    | some phase => Came phase rest t.controller t.deferred
    | none => t.controller.inbox = rest ++ (effects.filterMap Effect.emit?).map .lifecycle ∧
      t.controller.callback = none ∧ t.deferred = none
  called : if effects.findSome? Effect.call? = some .stop then
      t.calledOff = c.pending ∧ t.controller.pending = none
    else t.calledOff = none ∧ t.controller.pending = c.pending
  asks : ∃ w', Answers w c.install w' t.controller.install ∧ Asked w' t.requests t.world
  reported : t.reported =
    if next.phase = c.state.phase ∨ t.controller.callback.isSome = true then none
    else some (.report c.plan.name next (if .completeStart ∈ effects then some c.plan.value else none))

/-- A turn in which a suspended callback goes on. -/
structure Resumed (w : World) (c : Controller) (phase : Phase) (t : Turn) : Prop where
  alike : c.Alike t.controller
  came : Came phase c.inbox t.controller t.deferred
  asks : Asked w t.requests t.world
  calledOff : t.calledOff = none
  reported : t.reported =
    if t.controller.callback.isSome = true then none else some (.report c.plan.name c.state none)

theorem onUpdate_eq (t : Turn) (u : GroupUpdate) :
    ∃ w, w.pledges = t.world.pledges ∧ t.onUpdate u = { t with world := w } := by
  have hcalls : ∀ (label : Label) (calls : List HandlerCall) (w : World),
      (w.recordCalls label calls).pledges = w.pledges := by
    intro label calls
    unfold World.recordCalls
    induction calls with
    | nil => exact fun _ => rfl
    | cons call calls ih => exact fun w => (ih _).trans rfl
  cases u with
  | added group member value =>
      simp only [onUpdate]
      split
      · exact ⟨t.world, rfl, rfl⟩
      · next label _ =>
          refine ⟨_, ?_, rfl⟩
          unfold World.addMember
          split
          · rfl
          · split
            · exact (hcalls _ _ _).trans rfl
            · rfl
  | removed group member =>
      simp only [onUpdate]
      split
      · exact ⟨t.world, rfl, rfl⟩
      · next label _ =>
          refine ⟨_, ?_, rfl⟩
          unfold World.removeMember
          split
          · rfl
          · exact (hcalls _ _ _).trans rfl

end Turn

namespace Controller

variable {c : Controller} {w : World} {rest : List Message}

open Turn in
theorem take_reference {u : GroupUpdate} (h : c.inbox = .reference u :: rest) (id : Nat)
    (w : World) : Skipped w c rest (c.take id w) := by
  obtain ⟨w', hw, he⟩ := onUpdate_eq (.begin w { c with inbox := rest }) u
  have ht : c.take id w = { Turn.begin w { c with inbox := rest } with world := w' } := by
    simp only [take, h, he]
  rw [ht]
  exact ⟨rfl, hw, rfl, rfl, rfl, rfl⟩

open Turn in
theorem take_ignored {e : Event} (h : c.inbox = .lifecycle e :: rest)
    (hno : ∀ next effects, ¬Moves c.interruptible c.state e.signal next effects) (id : Nat)
    (w : World) : Skipped w c rest (c.take id w) := by
  have hnone : transition c.state e.signal c.interruptible = none := by
    rw [Option.eq_none_iff_forall_ne_some]
    rintro ⟨next, effects⟩ hs
    exact hno next effects (transition_eq_some_iff.mp hs)
  have ht : c.take id w = Turn.begin w { c with inbox := rest } := by
    simp only [take, h, onEvent, Turn.begin, hnone]
  rw [ht]
  exact ⟨rfl, rfl, rfl, rfl, rfl, rfl⟩

open Turn in
/-- A move is made by carrying out its effects; then it is reported, if there is reason to. -/
theorem take_eq {e : Event} (h : c.inbox = .lifecycle e :: rest) {next : State}
    {effects : List Effect} (hm : Moves c.interruptible c.state e.signal next effects) (id : Nat)
    (w : World) : c.take id w =
      (let t := effects.foldl (carryOut id e) (.begin w { c with inbox := rest, state := next })
      if next.phase = c.state.phase || t.controller.callback.isSome then t
      else t.report (if .completeStart ∈ effects then some c.plan.value else none)) := by
  simp only [take, h, onEvent, Turn.begin, transition_eq_some_iff.mpr hm]
  rfl

open Turn in
theorem take_moved {e : Event} (h : c.inbox = .lifecycle e :: rest) (hc : c.callback = none)
    {next : State} {effects : List Effect}
    (hm : Moves c.interruptible c.state e.signal next effects) (id : Nat) (w : World) :
    Moved w c rest next effects (c.take id w) := by
  have hid : Idle (.begin w { c with inbox := rest, state := next }) := ⟨hc, rfl, rfl, rfl, rfl⟩
  have hw := worked_foldl _ id hm hid
  rw [take_eq h hm]
  dsimp only
  split
  · next hif =>
      refine ⟨hw.plan, hw.state, hw.ended, hw.left, hw.called, hw.asks, ?_⟩
      rw [hw.reported, if_pos (by simpa using hif)]
  · next hif =>
      refine ⟨hw.plan, hw.state, hw.ended, hw.left, hw.called, hw.asks, ?_⟩
      have hname : ∀ t : Turn, t.controller.name = t.controller.plan.name := fun _ => rfl
      have hno : ¬(next.phase = c.state.phase ∨ (effects.foldl (carryOut id e)
          (.begin w { c with inbox := rest, state := next })).controller.callback.isSome = true) := by
        simpa using hif
      simp only [report, hname, hw.plan, hw.state]
      rw [if_neg hno]
      rfl

/-- The next signal means something to the controller. -/
def Heeds (c : Controller) (x : Signal) : Prop :=
  ∃ next effects, Moves c.interruptible c.state x next effects

/-- What the oldest message before a controller asks for. -/
def effects (c : Controller) : List Effect :=
  match c.inbox with
  | .lifecycle e :: _ => c.state.effects (e.signal, c.interruptible)
  | _ => []

/-- Whoever carries out anything makes a move, by the message before it. -/
theorem moves_of_effects {effect : Effect} (h : effect ∈ c.effects) : ∃ e rest next,
    c.inbox = .lifecycle e :: rest ∧ Moves c.interruptible c.state e.signal next c.effects := by
  cases hi : c.inbox with
  | nil => simp [effects, hi] at h
  | cons message rest =>
      cases message with
      | reference u => simp [effects, hi] at h
      | lifecycle e =>
          cases ht : transition c.state e.signal c.interruptible with
          | none => simp [effects, hi, State.effects, ht] at h
          | some move =>
              have heffects : c.effects = move.2 := by simp [effects, hi, State.effects, ht]
              exact ⟨e, rest, move.1, rfl, heffects ▸ transition_eq_some_iff.mp ht⟩

theorem ended_of_canTake (h : c.canTake = true) : c.ended = false := by
  simp only [canTake, Bool.and_eq_true, Bool.not_eq_true'] at h
  exact h.1.1

open Turn in
/-- A controller that takes a message makes a move, if the message means something. -/
theorem take_cases (h : c.canTake = true) (id : Nat) (w : World) :
    (∃ message rest, c.inbox = message :: rest ∧ (∀ x, message.signal? = some x → ¬c.Heeds x) ∧
      c.effects = [] ∧ Skipped w c rest (c.take id w)) ∨
    ∃ e rest next, c.inbox = .lifecycle e :: rest ∧ c.callback = none ∧
      Moves c.interruptible c.state e.signal next c.effects ∧
      Moved w c rest next c.effects (c.take id w) := by
  simp only [canTake, Bool.and_eq_true, Bool.not_eq_true', Option.isNone_iff_eq_none,
    List.isEmpty_eq_false_iff] at h
  obtain ⟨⟨_, hc⟩, hi⟩ := h
  obtain ⟨message, rest, hi⟩ := List.exists_cons_of_ne_nil hi
  cases message with
  | reference u =>
      refine .inl ⟨_, rest, hi, by simp [Message.signal?], ?_, take_reference hi id w⟩
      simp [effects, hi]
  | lifecycle e =>
      have heffects : c.effects = c.state.effects (e.signal, c.interruptible) := by
        simp [effects, hi]
      rw [heffects]
      unfold State.effects
      cases ht : transition c.state e.signal c.interruptible with
      | some move =>
          have hm := transition_eq_some_iff.mp ht
          exact .inr ⟨e, rest, move.1, hi, hc, hm, take_moved hi hc hm id w⟩
      | none =>
          have hno : ∀ next effects, ¬Moves c.interruptible c.state e.signal next effects := by
            intro next effects hm
            rw [transition_eq_some_iff.mpr hm] at ht
            cases ht
          refine .inl ⟨_, rest, hi, fun x hx => ?_, rfl, take_ignored hi hno id w⟩
          rintro ⟨next, effects, hm⟩
          exact hno next effects (Option.some.inj hx ▸ hm)

theorem callback_of_wakeUp? {callback : Callback} {answer : Option (Awaited × Except Error Answer)}
    {w : World} (h : c.wakeUp? w = some (callback, answer)) : c.callback = some callback := by
  unfold wakeUp? at h
  split at h
  · cases h
  · next callback' hc =>
      rw [hc]
      split at h
      · cases h
      · cases h
        rfl
      · obtain ⟨_, _, he⟩ := Option.map_eq_some_iff.mp h
        rw [(Prod.mk.inj he).1]

open Turn in
theorem resume_resumed {callback : Callback} {answer : Option (Awaited × Except Error Answer)}
    (h : c.wakeUp? w = some (callback, answer)) (id : Nat) :
    Resumed w c callback.phase (c.resume id w) := by
  let context : Context :=
    { service := c.name, id, phase := callback.phase, interrupted := callback.interrupted }
  have hr := runs_settleCallback (.begin w c) context
    (carryOn context callback.rest { Progress.begin w with
      deferred := callback.deferred, interruptible := callback.interruptible } answer)
    rfl rfl (performs_carryOn _ _ _ _).asks rfl
  have ht : c.resume id w =
      (let t := (Turn.begin w c).settleCallback context (carryOn context callback.rest
        { Progress.begin w with
          deferred := callback.deferred, interruptible := callback.interruptible } answer)
      if t.controller.callback.isSome then t else t.report none) := by
    simp only [resume, h]
    rfl
  obtain ⟨asked, hreq, hasked⟩ := hr.asks
  have hreq' := hreq.trans (List.nil_append asked)
  rw [ht]
  dsimp only
  split
  · next hif =>
      refine ⟨hr.alike, hr.came, hreq'.symm ▸ hasked, hr.calledOff, ?_⟩
      rw [hr.reported, if_pos hif]
      rfl
  · next hif =>
      refine ⟨hr.alike, hr.came, hreq'.symm ▸ hasked, hr.calledOff, ?_⟩
      have hname : ∀ t : Turn, t.controller.name = t.controller.plan.name := fun _ => rfl
      simp only [report, hname, hr.alike.plan, hr.alike.state]
      rw [if_neg hif]
      rfl

end Controller

end ServiceHost
