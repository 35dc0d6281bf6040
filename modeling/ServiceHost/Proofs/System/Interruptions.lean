import ServiceHost.Proofs.System.Bystanders
import ServiceHost.Proofs.System.Ownership

/-! # What no run ever breaks

Once everyone was told to stop, the container may end where it is, controllers may end where they
are, and watchers may call off their tasks. What is shown here holds in spite of that. -/

namespace ServiceHost

open ServiceHost.Graph (Trial TrialStep)

theorem Graph.Trial.Sound.foldl {t : Trial} (ht : t.Sound) (steps : List TrialStep) :
    (steps.foldl Trial.next t).Sound := by
  induction steps generalizing t with
  | nil => exact ht
  | cons step steps ih => exact ih (Trial.stepSpec ht step).sound

namespace System

variable {s s' : System} {x : Stimulus}

/-! ## Orders to stop -/

/-- What becomes of a system whose actors obey the order to stop, or which is given that order. -/
inductive Obeyed (s : System) : Stimulus → System → Prop
  | told : Obeyed s .cancel s.cancel
  | forced (hx : s.cancelled = true) (hs : s.container.isServing = true) :
    Obeyed s (.move .force) s.shutDown
  | ended (id : Nat) (c : Controller) (hx : s.cancelled = true)
    (hc : s.controllers[id]? = some c) (hlive : c.ended = false) (hfree : c.callback = none) :
    Obeyed s (.move (.cancel id)) ((s.log .warn c.cancelText).endController id c)
  | calledOff (id : Nat) (t : Task) (hx : s.cancelled = true) (ht : s.tasks[id]? = some t)
    (hw : t.watched = true) : Obeyed s (.move (.callOff id)) (s.callOffTask id)

/-- Whatever happens to a system. -/
inductive Happens (s : System) (x : Stimulus) (s' : System) : Prop
  | step (h : Step s x s')
  | obeyed (h : Obeyed s x s')

theorem happens_apply (s : System) (x : Stimulus) : Happens s x (s.apply x) := by
  by_cases hs : s.cancelled = true
  · cases x with
    | cancel => exact .obeyed .told
    | move m =>
        by_cases hm : m.Obeys
        · by_cases hcan : s.canMove m = true
          · have happly : s.apply (.move m) = s.performNow m := if_pos hcan
            rw [happly]
            refine .obeyed ?_
            cases m with
            | force => exact .forced hs (Bool.and_eq_true_iff.mp hcan).1
            | cancel id =>
                obtain ⟨c, hc, hfree⟩ :=
                  (Option.any_eq_true _ _).mp (Bool.and_eq_true_iff.mp hcan).2
                have hnow : s.performNow (.cancel id) =
                    (s.log .warn c.cancelText).endController id c := by
                  simp [performNow, cancelController, hc]
                rw [hnow]
                exact .ended id c hs hc (by simpa using (Bool.and_eq_true_iff.mp hfree).1)
                  (by simpa using (Bool.and_eq_true_iff.mp hfree).2)
            | callOff id =>
                obtain ⟨t, ht, hoff⟩ := (Option.any_eq_true _ _).mp hcan
                exact .calledOff id t hs ht (Bool.and_eq_true_iff.mp hoff).1
            | _ => exact hm.elim
          · have happly : s.apply (.move m) = s := if_neg hcan
            rw [happly]
            exact .step (.calm (.refl s) fun id hx => by cases hx; exact hm.elim)
        · exact .step (step_perform fun h => absurd h hm)
    | passOver => exact .step (.calm (.of_unmoved ⟨rfl, rfl, rfl, rfl⟩ rfl rfl) (by simp))
    | elapse t => exact .step (.calm (calm_elapse s t) (by simp))
    | wait clock round => exact .step (.calm (.of_unmoved ⟨rfl, rfl, rfl, rfl⟩ rfl rfl) (by simp))
    | request origin o => exact .step (step_operate s origin o)
    | log level message =>
        exact .step (.calm (.of_unmoved (unmoved_log s level message) rfl rfl) (by simp))
    | giveUp => exact .step (.calm (calm_giveUp s) (by simp))
  · by_cases hx : x = .cancel
    · exact hx ▸ .obeyed .told
    · exact .step (step_apply (by simpa using hs) hx)

/-- What every step keeps holds after every run. -/
theorem kept_run {P : System → Prop} (hstep : ∀ {s s' : System} {x : Stimulus}, P s →
    Happens s x s' → P s') (h : P s) (happened : List Stimulus) : P (s.run happened) := by
  induction happened generalizing s with
  | nil => exact h
  | cons x happened ih => exact ih (hstep h (happens_apply s x))

theorem unmoved_cancel (s : System) : Unmoved { s with cancelled := true } s.cancel := by
  constructor <;> simp [System.cancel]

theorem cancel_world (s : System) : s.cancel.world = s.world := by simp [System.cancel]

/-! ## The end of the container -/

theorem unmoved_turnDown (s : System) :
    Unmoved { s with container := { s.container with stage := .closed, inbox := [] } }
      s.turnDown := unmoved_refuseAll _ _ _

theorem unmoved_endForced (s : System) : Unmoved { s with container :=
    { s.container with ended := true, removals := ∅, closing := [] } } s.endForced := by
  have hu := unmoved_settleAll { s.log .warn "⚠️  Service container was closed forcefully" with
    container := { s.container with ended := true, removals := ∅, closing := [] } }
    (s.container.removals.values.flatten ++ s.container.closing) (.error .abandoned)
  exact ⟨hu.container, hu.controllers, hu.tasks, hu.cancelled⟩

theorem shutDown_container (s : System) : s.shutDown.container =
    if s.cancelled then
      { s.container with stage := .closed, inbox := [], ended := true, removals := ∅, closing := [] }
    else { s.container with stage := .closed, inbox := [] } := by
  have hdown := unmoved_turnDown s
  rw [shutDown_eq_ite, hdown.cancelled]
  split
  · rw [(unmoved_endForced _).container, hdown.container]
  · exact hdown.container

theorem shutDown_closed (s : System) :
    s.shutDown.container.stage = .closed ∧ s.shutDown.container.inbox = [] := by
  rw [shutDown_container]
  split <;> exact ⟨rfl, rfl⟩

theorem stage_closeIfEmpty (s : System) : s.closeIfEmpty.container.stage = s.container.stage ∨
    (s.closeIfEmpty.container.stage = .closed ∧ s.closeIfEmpty.container.graph.isEmpty = true ∧
      s.container.stage = .closing) := by
  unfold closeIfEmpty
  split
  · next h =>
      simp only [Bool.and_eq_true, decide_eq_true_eq] at h
      exact .inr ⟨rfl, h.2, h.1⟩
  · exact .inl rfl

theorem stage_close (s : System) (ticket : Ticket) :
    (s.close ticket).container.stage = s.container.stage ∨
      (s.container.stage = .opened ∧ (s.close ticket).container.stage = .closing) ∨
      (s.container.stage = .opened ∧ (s.close ticket).container.stage = .closed ∧
        (s.close ticket).container.graph.isEmpty = true) := by
  rw [close_eq]
  split
  · exact .inl (congrArg Container.stage (unmoved_settle s _ _).container)
  · next hst =>
      obtain ⟨graph, hgraph⟩ :=
        requestRemovals_container (s.beginClosing ticket) s.container.graph.roots
      have hopened : s.container.stage = .opened := by simpa using hst
      have hclosing : ((s.beginClosing ticket).requestRemovals
          s.container.graph.roots).container.stage = .closing := by rw [hgraph]; rfl
      rcases stage_closeIfEmpty ((s.beginClosing ticket).requestRemovals
        s.container.graph.roots) with h | ⟨h, hempty, _⟩
      · exact .inr (.inl ⟨hopened, h.trans hclosing⟩)
      · exact .inr (.inr ⟨hopened, h, hempty⟩)

theorem stage_acceptReport (s : System) (name : Name) (state : State) (value : Option Value) :
    (s.acceptReport name state value).container.stage = s.container.stage ∨
      (state = .removed ∧ s.container.stage = .closing ∧
        (s.acceptReport name state value).container.stage = .closed ∧
        (s.acceptReport name state value).container.graph.isEmpty = true) := by
  have ho := operates_applyGraph s (s.container.graph.report name state value)
  rw [acceptReport_eq]
  dsimp only
  generalize s.applyGraph (s.container.graph.report name state value) = s₁ at ho
  have hst : s₁.container.stage = s.container.stage := by rw [ho.container]
  split
  · next hremoved =>
      have hsame : ((s₁.freeRemovals name).settleAll (s₁.container.removals[name]?.getD [])
          (.ok .done)).container.stage = s.container.stage := by
        rw [(unmoved_settleAll _ _ _).container]
        exact hst
      rcases stage_closeIfEmpty ((s₁.freeRemovals name).settleAll
        (s₁.container.removals[name]?.getD []) (.ok .done)) with h | ⟨h, hempty, hclosing⟩
      · exact .inl (h.trans hsame)
      · exact .inr ⟨hremoved, hsame ▸ hclosing, h, hempty⟩
  · exact .inl hst

/-- A request at most lets the container begin to close, and be closed once it is empty. -/
theorem stage_process (s : System) (r : Request) :
    (s.process r).container.stage = s.container.stage ∨
      ((∃ k, r = .close k) ∧ s.container.stage = .opened ∧
        (s.process r).container.stage = .closing) ∨
      ((s.process r).container.stage = .closed ∧
        (s.process r).container.graph.isEmpty = true ∧
        ((∃ a v, r = .report a .removed v) ∧ s.container.stage = .closing ∨
          (∃ k, r = .close k) ∧ s.container.stage = .opened)) := by
  cases r with
  | has name ticket | state name ticket | text ticket =>
      exact .inl (congrArg Container.stage (unmoved_settle s _ _).container)
  | install plan ticket =>
      refine .inl ?_
      show (s.install plan ticket).container.stage = _
      unfold System.install
      split
      · rw [(unmoved_refuse s _ _).container]
      · split
        · rw [(unmoved_refuse s _ _).container]
        · rw [(operates_install s plan ticket).container]
  | remove name ticket =>
      refine .inl ?_
      show (s.remove name ticket).container.stage = _
      unfold System.remove
      split
      · show (s.applyGraph (s.container.graph.requestRemoval name)).container.stage = _
        rw [(operates_applyGraph s _).container]
      · rw [(unmoved_settle s _ _).container]
  | close ticket =>
      rcases stage_close s ticket with h | ⟨ho, h⟩ | ⟨ho, h, hempty⟩
      · exact .inl h
      · exact .inr (.inl ⟨⟨ticket, rfl⟩, ho, h⟩)
      · exact .inr (.inr ⟨h, hempty, .inr ⟨⟨ticket, rfl⟩, ho⟩⟩)
  | report name state value =>
      rcases stage_acceptReport s name state value with h | ⟨rfl, hc, h, hempty⟩
      · exact .inl h
      · exact .inr (.inr ⟨h, hempty, .inl ⟨⟨name, value, rfl⟩, hc⟩⟩)

end System

/-! ## Controllers -/

/-- What a controller keeps to until it ends, and how it ends. -/
structure Controller.Regular (c : Controller) : Prop where
  owes : c.ended = false → c.Owes
  callback : ∀ callback, c.callback = some callback → callback.phase.In c.state
  ended : c.ended = true → c.callback = none ∧ c.inbox = [] ∧ c.install = none

/-- A controller as it ends where it is. -/
def Controller.cut (c : Controller) : Controller :=
  { c with ended := true, inbox := [], install := none }

theorem Moves.call_of_terminate {interruptible : Bool} {state next : State} {x : Signal}
    {effects : List Effect} (h : Moves interruptible state x next effects)
    (hterm : .terminate ∈ effects) : effects.findSome? Effect.call? = none := by
  cases h <;> simp_all [Effect.call?]

namespace Controller.Regular

variable {c : Controller} {w : World} {id task : Nat}

theorem launch (plan : Plan) (ticket : Ticket) : (Controller.launch plan ticket).Regular :=
  ⟨fun _ => owes_launch plan ticket, fun _ h => (Option.some_ne_none _ h.symm).elim,
    fun h => absurd h (by simp [Controller.launch])⟩

theorem told (h : c.Regular) (messages : List Message) : (c.told messages).Regular := by
  refine ⟨fun he => ?_, fun callback hc => ?_, fun he => ?_⟩
  · rw [c.told_ended] at he
    exact (h.owes he).rests (c.rests_told messages)
  · rw [c.told_callback] at hc
    rw [c.told_state]
    exact h.callback callback hc
  · rw [c.told_ended] at he
    rw [Controller.told, if_pos he]
    exact h.ended he

theorem alarm (h : c.Regular) : c.alarm.Regular := by
  refine ⟨h.owes, fun callback hc => ?_, fun he => ⟨?_, (h.ended he).2⟩⟩
  · obtain ⟨callback', hc', rfl⟩ := Option.map_eq_some_iff.mp hc
    have hin := h.callback callback' hc'
    split <;> exact hin
  · show c.callback.map _ = none
    rw [(h.ended he).1]
    rfl

theorem cut (h : c.Regular) (hfree : c.callback = none) : c.cut.Regular :=
  ⟨fun he => absurd he (by simp [Controller.cut]), h.callback, fun _ => ⟨hfree, rfl, rfl⟩⟩

theorem take (h : c.Regular) (hcan : c.canTake = true) :
    ((c.take id w).final task).Regular := by
  have hlive : c.ended = false := Controller.ended_of_canTake hcan
  refine ⟨fun _ => (h.owes hlive).take hcan id w task, fun callback hc => ?_, fun he => ?_⟩
  · rw [Turn.final_callback] at hc
    rw [Turn.final_state]
    rcases Controller.take_cases hcan id w with
      ⟨_, _, _, _, _, hs⟩ | ⟨e, rest, next, _, _, hm, ht⟩
    · rw [hs.controller] at hc ⊢
      exact h.callback callback hc
    · rw [ht.state]
      have hleft := ht.left
      split at hleft
      · next phase hcall =>
          rw [hleft.phase_eq hc]
          exact hm.call_in hcall
      · simp [hleft.2.1] at hc
  · rw [Turn.final_ended] at he
    rw [Turn.final_callback]
    refine ⟨?_, by rw [Turn.final_inbox, if_pos he], by simp [Turn.final, he]⟩
    rcases Controller.take_cases hcan id w with
      ⟨_, _, _, _, _, hs⟩ | ⟨e, rest, next, _, _, hm, ht⟩
    · rw [hs.controller] at he
      simp [hlive] at he
    · have hterm : .terminate ∈ c.effects := by
        have hended := ht.ended
        rw [he, hlive, Bool.false_or] at hended
        simpa using hended.symm
      have hcall := hm.call_of_terminate hterm
      have hleft := ht.left
      simp only [hcall] at hleft
      exact hleft.2.1

theorem live (h : c.Regular) {callback : Callback} (hc : c.callback = some callback) :
    c.ended = false := by
  by_contra he
  simp [(h.ended (by simpa using he)).1] at hc

theorem resume (h : c.Regular) {callback : Callback}
    {answer : Option (Awaited × Except Error Answer)}
    (hwake : c.wakeUp? w = some (callback, answer)) :
    ((c.resume id w).final task).Regular := by
  have hc := Controller.callback_of_wakeUp? hwake
  have hlive := h.live hc
  have ht := Controller.resume_resumed hwake id
  refine ⟨fun _ => (h.owes hlive).rests (Controller.rests_resume hwake hlive id task),
    fun callback' hc' => ?_, fun he => ?_⟩
  · rw [Turn.final_callback] at hc'
    rw [Turn.final_state, ht.alike.state, ht.came.phase_eq hc']
    exact h.callback callback hc
  · rw [Turn.final_ended, ht.alike.ended, hlive] at he
    contradiction

end Controller.Regular

namespace System

variable {s s' : System} {x : Stimulus} {i : Nat} {c' : Controller}

/-- What befalls a controller in a step. -/
inductive Befalls (s : System) (x : Stimulus) (i : Nat) (c' : Controller) : Prop
  | told {c : Controller} (messages : List Message) (hc : s.controllers[i]? = some c)
    (h : c' = c.told messages)
  | alarmed {c : Controller} (hc : s.controllers[i]? = some c) (h : c' = c.alarm)
  | took {c : Controller} (hx : x = .move (.take i)) (hc : s.controllers[i]? = some c)
    (hcan : c.canTake = true) (h : c' = (c.take i s.world).final s.tasks.length)
  | resumed {c : Controller} {callback : Callback}
    {answer : Option (Awaited × Except Error Answer)} (hx : x = .move (.resume i))
    (hc : s.controllers[i]? = some c) (hwake : c.wakeUp? s.world = some (callback, answer))
    (h : c' = (c.resume i s.world).final s.tasks.length)
  | launched {plan : Plan} {ticket : Ticket} {rest : List Request} (messages : List Message)
    (hx : x = .move .receive) (hi : s.container.inbox = .install plan ticket :: rest)
    (h : c' = (Controller.launch plan ticket).told messages)
  | ended {c : Controller} (hc : s.controllers[i]? = some c) (hlive : c.ended = false)
    (hfree : c.callback = none) (h : c' = c.cut)

theorem Befalls.of_same (hc : s.controllers[i]? = some c') : s.Befalls x i c' :=
  .told [] hc c'.told_nil.symm

theorem Step.befalls (hs : Step s x s') (hc' : s'.controllers[i]? = some c') :
    s.Befalls x i c' := by
  cases hs with
  | calm hcalm =>
      obtain ⟨c, hc, rfl | rfl⟩ := hcalm.exists_controller hc'
      · exact .of_same hc
      · exact .alarmed hc rfl
  | opened origin hst hu => exact .of_same (hu.controllers ▸ hc')
  | asked origin o requests w ha =>
      rw [(sends_sendAll { s with world := w } requests).controllers] at hc'
      exact .of_same hc'
  | received request rest hserving hi =>
      rw [((mirrors_trial s).receive hi).2] at hc'
      obtain ⟨c, hc, rfl⟩ := Option.map_eq_some_iff.mp hc'
      rw [List.getElem?_append] at hc
      split at hc
      · exact .told _ hc rfl
      · have hlaunched := List.mem_of_getElem? hc
        unfold launches at hlaunched
        split at hlaunched
        · split at hlaunched
          · exact .launched _ rfl hi (by rw [List.mem_singleton.mp hlaunched])
          · simp at hlaunched
        · simp at hlaunched
  | finished hst hq =>
      rw [(unmoved_finish s).controllers] at hc'
      exact .of_same hc'
  | took id c hc hcan =>
      have ha := applies_applyTurn (t := c.take id s.world) (List.getElem?_eq_some_iff.mp hc).1
      rcases ha.cases_controller hc' with ⟨rfl, he⟩ | ⟨_, hc'⟩
      · exact .took rfl hc hcan he
      · exact .of_same hc'
  | resumed id c callback answer hc hwake =>
      have ha := applies_applyTurn (t := c.resume id s.world) (List.getElem?_eq_some_iff.mp hc).1
      rcases ha.cases_controller hc' with ⟨rfl, he⟩ | ⟨_, hc'⟩
      · exact .resumed rfl hc hwake he
      · exact .of_same hc'
  | joined id t outcome hj =>
      rw [hj.controllers] at hc'
      obtain ⟨c, hc, rfl⟩ := Option.map_eq_some_iff.mp hc'
      exact .told _ hc rfl

theorem endController_controllers (s : System) (id : Nat) (c : Controller) :
    (s.endController id c).controllers = s.controllers.set id c.cut :=
  (unmoved_endController s id c).controllers

theorem endController_container (s : System) (id : Nat) (c : Controller) :
    (s.endController id c).container = s.container :=
  (unmoved_endController s id c).container

theorem callOffTask_container (s : System) (id : Nat) :
    (s.callOffTask id).container = s.container := by
  unfold callOffTask
  split
  · rfl
  · exact (unmoved_noticeEnd _).container

theorem callOffTask_controllers (s : System) (id : Nat) :
    (s.callOffTask id).controllers = s.controllers := by
  unfold callOffTask
  split
  · rfl
  · exact (unmoved_noticeEnd _).controllers

theorem Happens.befalls (hs : Happens s x s') (hc' : s'.controllers[i]? = some c') :
    s.Befalls x i c' := by
  cases hs with
  | step h => exact h.befalls hc'
  | obeyed h =>
      cases h with
      | told => exact .of_same ((unmoved_cancel s).controllers ▸ hc')
      | forced hx hs =>
          rw [shutDown_controllers] at hc'
          exact .of_same hc'
      | ended id c hx hc hlive hfree =>
          rw [endController_controllers, List.getElem?_set] at hc'
          split at hc'
          · next hi =>
              subst hi
              split at hc'
              · exact .ended hc hlive hfree (Option.some.inj hc').symm
              · contradiction
          · exact .of_same hc'
      | calledOff id t hx ht hw =>
          rw [callOffTask_controllers] at hc'
          exact .of_same hc'

theorem Befalls.regular (h : ∀ {c : Controller}, s.controllers[i]? = some c → c.Regular)
    (hf : s.Befalls x i c') : c'.Regular := by
  cases hf with
  | told messages hc hc' => exact hc' ▸ (h hc).told messages
  | alarmed hc hc' => exact hc' ▸ (h hc).alarm
  | took hx hc hcan hc' => exact hc' ▸ (h hc).take hcan
  | resumed hx hc hwake hc' => exact hc' ▸ (h hc).resume hwake
  | launched messages hx hi hc' => exact hc' ▸ (Controller.Regular.launch _ _).told messages
  | ended hc hlive hfree hc' => exact hc' ▸ (h hc).cut hfree

/-! ## The container -/

/-- What a container keeps to: one that takes no requests has none before it, and one that has
ended holds no promises. -/
structure Firm (c : Container) : Prop where
  idle : c.isServing = false → c.inbox = []
  ended : c.ended = true → c.stage = .closed ∧ c.removals = ∅ ∧ c.closing = []

/-- The controllers, the container and the graph are well-formed, whatever happens to them. -/
structure WellFormed (s : System) : Prop where
  controllers : ∀ {i : Nat} {c : Controller}, s.controllers[i]? = some c → c.Regular
  container : Firm s.container
  sound : s.trial.Sound

theorem Firm.sent {c : Container} (h : Firm c) (l : List Request) : Firm (c.sent l) := by
  by_cases hs : c.isServing = true
  · have hsent : c.sent l = { c with inbox := c.inbox ++ l } := if_pos hs
    rw [hsent]
    have hserving : Container.isServing { c with inbox := c.inbox ++ l } = true := hs
    exact ⟨fun hno => absurd hserving (by simp [hno]), h.ended⟩
  · rw [sent_of_not_serving (by simpa using hs)]
    exact h

theorem Firm.live {c : Container} (h : Firm c) (hs : c.isServing = true) : c.ended = false := by
  by_contra he
  have hst := (h.ended (by simpa using he)).1
  simp [Container.isServing, hst] at hs

theorem firm_shutDown {s : System} (h : s.container.ended = false) :
    Firm s.shutDown.container := by
  rw [shutDown_container]
  split
  · exact ⟨fun _ => rfl, fun _ => ⟨rfl, rfl, rfl⟩⟩
  · exact ⟨fun _ => rfl, fun he => absurd he (by simp [h])⟩

theorem process_ended (s : System) (r : Request) :
    (s.process r).container.ended = s.container.ended := by
  obtain ⟨stage, graph, hc⟩ := process_container s r
  rw [hc]

theorem process_inbox (s : System) (r : Request) :
    (s.process r).container.inbox = s.container.inbox := by
  obtain ⟨stage, graph, hc⟩ := process_container s r
  rw [hc]

/-- A container that takes a request goes on taking some, or is closed. -/
theorem serving_or_closed {r : Request} (hs : s.container.isServing = true) :
    (s.process r).container.isServing = true ∨ (s.process r).container.stage = .closed := by
  rw [isServing_iff] at hs ⊢
  rcases stage_process s r with h | ⟨_, _, h⟩ | ⟨h, _⟩
  · exact .inl (h ▸ hs)
  · exact .inl (.inr h)
  · exact .inr h

theorem Firm.receive {r : Request} {rest : List Request} (h : Firm s.container)
    (hs : s.container.isServing = true) (hi : s.container.inbox = r :: rest) :
    Firm s.receive.container := by
  let s₁ : System := { s with container := { s.container with inbox := rest } }
  have hlive : (s₁.process r).container.ended = false :=
    (process_ended s₁ r).trans (h.live hs)
  rw [receive_eq hi]
  dsimp only
  split
  · exact firm_shutDown hlive
  · next hst =>
      have hserving := (serving_or_closed (s := s₁) (r := r) hs).resolve_right hst
      refine ⟨fun hno => ?_, fun he => ?_⟩
      · exact absurd (hserving.symm.trans hno) (by simp)
      · exact absurd (he.symm.trans hlive) (by simp)

theorem Firm.happens (h : Firm s.container) (hs : Happens s x s') : Firm s'.container := by
  cases hs with
  | step hs =>
      cases hs with
      | calm hcalm => exact hcalm.container ▸ h
      | opened origin hst hu =>
          rw [hu.container]
          refine ⟨fun hno => absurd hno (by simp [Container.isServing]), fun he => ?_⟩
          have hclosed := (h.ended he).1
          rw [hst] at hclosed
          contradiction
      | asked origin o requests w ha =>
          rw [(sends_sendAll { s with world := w } requests).container]
          exact h.sent requests
      | received request rest hserving hi => exact h.receive hserving hi
      | finished hst hq =>
          rw [(unmoved_finish s).container]
          exact ⟨h.idle, fun _ => ⟨hst, rfl, rfl⟩⟩
      | took id c hc hcan =>
          rw [(applies_applyTurn (List.getElem?_eq_some_iff.mp hc).1).container]
          exact h.sent _
      | resumed id c callback answer hc hwake =>
          rw [(applies_applyTurn (List.getElem?_eq_some_iff.mp hc).1).container]
          exact h.sent _
      | joined id t outcome hj => exact hj.container ▸ h
  | obeyed hs =>
      cases hs with
      | told => exact (unmoved_cancel s).container ▸ h
      | forced hx hs => exact firm_shutDown (h.live hs)
      | ended id c hx hc hlive hfree => exact (endController_container _ id c).symm ▸ h
      | calledOff id t hx ht hw => exact (callOffTask_container s id).symm ▸ h

/-! ## The graph -/

theorem Mirrors.sound {t : Trial} (ht : t.Sound) (hm : Mirrors t s) : s.trial.Sound := by
  refine ⟨?_, fun {m n} hn => ?_⟩
  · show s.container.graph.Coherent
    rw [← hm.graph]
    exact ht.coherent
  · have hlt := ht.known (m := m) (n := n) (by rw [hm.graph]; exact hn)
    rw [hm.inboxes] at hlt
    simpa [trial] using hlt

/-- A step in which no request is taken leaves the graph, and adds no controller. -/
theorem Happens.still (hs : Happens s x s') (hx : x ≠ .move .receive) :
    s'.container.graph = s.container.graph ∧ s'.controllers.length = s.controllers.length := by
  cases hs with
  | step hs => exact hs.still hx
  | obeyed hs =>
      cases hs with
      | told =>
          have hu := unmoved_cancel s
          exact ⟨by rw [hu.container], by rw [hu.controllers]⟩
      | forced hx hs => exact ⟨shutDown_graph s, by rw [shutDown_controllers]⟩
      | ended id c hx hc hlive hfree =>
          exact ⟨by rw [endController_container]; rfl, by
            rw [endController_controllers, List.length_set]; rfl⟩
      | calledOff id t hx ht hw =>
          exact ⟨by rw [callOffTask_container], by rw [callOffTask_controllers]⟩

theorem WellFormed.happens (h : s.WellFormed) (hs : Happens s x s') : s'.WellFormed := by
  refine ⟨fun hc' => (hs.befalls hc').regular fun hc => h.controllers hc, h.container.happens hs, ?_⟩
  by_cases hx : x = .move .receive
  · subst hx
    cases hs with
    | step hs =>
        cases hs with
        | received request rest hserving hi =>
            exact ((mirrors_trial s).receive hi).1.sound (h.sound.foldl _)
        | calm hcalm =>
            exact ((mirrors_trial s).congr (congrArg Container.graph hcalm.container)
              (length_of_rel hcalm.controllers)).sound h.sound
    | obeyed hs => nomatch hs
  · obtain ⟨hgraph, hlength⟩ := hs.still hx
    exact ((mirrors_trial s).congr hgraph hlength).sound h.sound

theorem wellFormed_initial : initial.WellFormed :=
  ⟨fun hc => absurd hc (by simp [initial]), ⟨fun _ => rfl, fun he => absurd he (by decide)⟩,
    (mirrors_trial initial).sound (orderly_initial.sound (mirrors_trial initial))⟩

/-- Whatever happens, also once everyone was told to stop. -/
theorem wellFormed_run (happened : List Stimulus) : (initial.run happened).WellFormed :=
  kept_run WellFormed.happens wellFormed_initial happened

/-! ## Whether everyone was told to stop -/

theorem Step.cancelled (hs : Step s x s') : s'.cancelled = s.cancelled := by
  cases hs with
  | calm hcalm => exact hcalm.cancelled
  | opened origin hst hu => exact hu.cancelled
  | asked origin o requests w ha => exact (sends_sendAll { s with world := w } requests).cancelled
  | received request rest hserving hi => exact (spares_receive s).cancelled
  | finished hst hq => exact (spares_finish s).cancelled
  | took id c hc hcan => exact (applies_applyTurn (List.getElem?_eq_some_iff.mp hc).1).cancelled
  | resumed id c callback answer hc hwake =>
      exact (applies_applyTurn (List.getElem?_eq_some_iff.mp hc).1).cancelled
  | joined id t outcome hj => exact hj.cancelled

/-- An order to stop is never taken back. -/
theorem Happens.cancelled (hs : Happens s x s') :
    s'.cancelled = true ∨ s.cancelled = false ∧ Step s x s' := by
  cases hs with
  | step hs =>
      rw [hs.cancelled]
      cases s.cancelled with
      | true => exact .inl rfl
      | false => exact .inr ⟨rfl, hs⟩
  | obeyed hs =>
      refine .inl ?_
      cases hs with
      | told => exact (unmoved_cancel s).cancelled
      | forced hx hs => exact (spares_shutDown s).cancelled.trans hx
      | ended id c hx hc hlive hfree =>
          exact ((spares_log s _ _).trans (spares_endController _ id c)).cancelled.trans hx
      | calledOff id t hx ht hw =>
          unfold callOffTask
          split
          · exact hx
          · exact (unmoved_noticeEnd _).cancelled.trans hx

/-- Once everyone was told to stop, that stays so. -/
theorem cancelled_run (later : List Stimulus) (h : s.cancelled = true) :
    (s.run later).cancelled = true :=
  kept_run (P := fun s => s.cancelled = true)
    (fun h hs => hs.cancelled.resolve_right fun hno => by simp [h] at hno) h later

theorem not_cancel_of_uncancelled {happened : List Stimulus}
    (h : (s.run happened).cancelled = false) : ∀ x ∈ happened, x ≠ .cancel := by
  rintro _ hmem rfl
  obtain ⟨before, after, rfl⟩ := List.append_of_mem hmem
  have hcancelled := cancelled_run after (unmoved_cancel (s.run before)).cancelled
  rw [run_append] at h
  exact absurd (hcancelled.symm.trans h) (by simp)

theorem Happens.length_eq (hs : Happens s x s') (h : s.container.stage = .closed) :
    s'.controllers.length = s.controllers.length := by
  by_cases hx : x = .move .receive
  · subst hx
    cases hs with
    | step hs =>
        cases hs with
        | calm hcalm => exact length_of_rel hcalm.controllers
        | received request rest hserving hi => simp [Container.isServing, h] at hserving
    | obeyed hs => cases hs
  · exact (hs.still hx).2

end System

end ServiceHost
