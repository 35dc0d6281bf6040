import ServiceHost.Proofs.System.Interruptions
import ServiceHost.Proofs.System.Notices
import ServiceHost.Proofs.System.Replies

/-! # What is told of the state of a service

The container knows the state of a service from reports. Whenever none of these is under way and no
callback is suspended, it tells the state the controller is in, but for one thing that no report
ever says: that a service was asked to stop while it starts. -/

namespace ServiceHost

open ServiceHost.Graph (Trial TrialStep)

namespace Graph.Trial

variable {t : Trial} {step : TrialStep} {m : Name} {n' : Node}

/-- A service is shown in the state it was shown in before, or which is reported of it, or it was
just registered. -/
theorem Sound.shown_next (ht : t.Sound) (hn' : (t.next step).graph.nodes[m]? = some n') :
    n'.state = .waiting ∨ (∃ n, t.graph.nodes[m]? = some n ∧ n'.state = n.state) ∨
      ∃ value, step = .report m n'.state value := by
  have hg := ht.coherent
  cases step with
  | register a ds group refs =>
      by_cases hc : t.graph.contains a = true
      · rw [next_register_of_taken hc] at hn'
        exact .inr (.inl ⟨n', hn', rfl⟩)
      · rw [next_register_of_free hc] at hn'
        by_cases ha : a = m
        · subst ha
          rw [nodes_register_self] at hn'
          obtain rfl := Option.some.inj hn'
          exact .inl rfl
        · rw [nodes_register_of_ne (r := ⟨a, ds, group, refs⟩) _ ha] at hn'
          exact .inr (.inl ⟨n', hn', rfl⟩)
  | remove a =>
      change (t.graph.requestRemoval a).1.nodes[m]? = some n' at hn'
      obtain ⟨n, hn⟩ := hg.exists_of_requestRemoval hn'
      obtain ⟨k, hk, hs⟩ := hg.shown_requestRemoval (a := a) hn
      obtain rfl := Option.some.inj (hn'.symm.trans hk)
      exact .inr (.inl ⟨n, hn, hs.state⟩)
  | report a state value =>
      change (t.graph.report a state value).1.nodes[m]? = some n' at hn'
      obtain ⟨n, hn⟩ := hg.exists_of_report hn'
      by_cases ha : a = m
      · subst ha
        have hremoved : state ≠ .removed := by
          rintro rfl
          rw [hg.nodes_report_removed] at hn'
          cases hn'
        obtain ⟨k, hk, hs⟩ := hg.shown_report hn hremoved value
        obtain rfl := Option.some.inj (hn'.symm.trans hk)
        exact .inr (.inr ⟨value, by rw [hs.state]⟩)
      · cases hk : t.graph.nodes[a]? with
        | none =>
            rw [report_of_none hk] at hn'
            exact .inr (.inl ⟨n', hn', rfl⟩)
        | some b =>
            obtain ⟨k', hk', hs⟩ := hg.shown_report_of_ne hk hn ha state value
            obtain rfl := Option.some.inj (hn'.symm.trans hk')
            exact .inr (.inl ⟨n, hn, hs.state⟩)
  | contains a | state a | disconnect a => exact .inr (.inl ⟨n', hn', rfl⟩)

/-- Nor is it shown in another state after several steps. -/
theorem Sound.shown_foldl {state : State} (hstate : state ≠ .waiting) {steps : List TrialStep}
    (ht : t.Sound) (hsteps : ∀ value, .report m state value ∉ steps)
    (hn : ∀ n, t.graph.nodes[m]? = some n → n.state ≠ state)
    (hn' : (steps.foldl Trial.next t).graph.nodes[m]? = some n') : n'.state ≠ state := by
  induction steps generalizing t with
  | nil => exact hn n' hn'
  | cons step steps ih =>
      refine ih (Trial.stepSpec ht step).sound (fun value h => hsteps value (List.mem_cons_of_mem _ h))
        (fun n₁ hn₁ he => ?_) hn'
      rcases ht.shown_next hn₁ with h | ⟨n, hnode, h⟩ | ⟨value, h⟩
      · exact hstate (he.symm.trans h)
      · exact hn n hnode (h.symm.trans he)
      · exact hsteps value (he ▸ h ▸ List.mem_cons_self)

end Graph.Trial

/-- A phase determines the state, but for whether a service that starts was asked to stop. -/
theorem State.eq_of_phase_eq_of_ne {s s' : State} (h : s.phase = s'.phase)
    (hs : s ≠ .starting true) (hs' : s' ≠ .starting true) : s = s' := by
  by_cases hphase : s.phase = 1
  · have hstarting : ∀ {u : State}, u.phase = 1 → u ≠ .starting true → u = .starting false := by
      intro u hu hne
      cases u with
      | starting asked => cases asked <;> simp_all
      | _ => simp [phase] at hu
    rw [hstarting hphase hs, hstarting (h ▸ hphase) hs']
  · exact State.eq_of_phase_eq h hphase

/-- A move leads to another phase, or makes no call and leads to no more than a note. -/
theorem Moves.ne_noted {interruptible : Bool} {s next : State} {x : Signal} {effects : List Effect}
    (h : Moves interruptible s x next effects)
    (hno : next.phase ≠ s.phase ∨ (effects.findSome? Effect.call?).isSome = true) :
    next ≠ .starting true := by
  cases h with
  | note => simp [State.phase] at hno
  | _ => simp

/-- No request tells the graph that a service was asked to stop while it starts, unless that is
what it reports. -/
theorem Request.not_noted_mem_steps {k : Container} (r : Request)
    (hr : ∀ {m : Name} {state : State} {value : Option Value},
      r = .report m state value → state ≠ .starting true)
    {m : Name} {value : Option Value} : .report m (.starting true) value ∉ r.steps k := by
  cases r with
  | install plan ticket | close ticket =>
      simp only [Request.steps]
      split <;> simp
  | report a state v =>
      have hstate := hr rfl
      simp only [Request.steps, List.mem_singleton, TrialStep.report.injEq, not_and]
      exact fun _ he => absurd he.symm hstate
  | _ => simp [Request.steps]

namespace System

variable {s s' : System} {x : Stimulus} {i j : Nat} {c c' : Controller} {t : Turn} {name : Name}
  {happened : List Stimulus}

/-! ## What no report says -/

/-- Nobody but its controller knows that a service was asked to stop while it starts, and the
controller is not at a callback then. -/
structure Unnoted (s : System) : Prop where
  shown : ∀ {m : Name} {n : Node}, s.container.graph.nodes[m]? = some n → n.state ≠ .starting true
  underway : ∀ {m : Name} {state : State} {value : Option Value},
    .report m state value ∈ s.container.inbox → state ≠ .starting true
  suspended : ∀ {i : Nat} {c : Controller}, s.controllers[i]? = some c →
    c.callback.isSome = true → c.state ≠ .starting true

theorem Turns.ne_noted (h : s.Turns i c t)
    (hc : c.callback.isSome = true → c.state ≠ .starting true) :
    (t.controller.callback.isSome = true → t.controller.state ≠ .starting true) ∧
      ∀ {m : Name} {state : State} {value : Option Value},
        t.reported = some (.report m state value) → state ≠ .starting true := by
  cases h with
  | took hcan =>
      rcases Controller.take_cases hcan i s.world with
        ⟨message, rest, hi, _, _, hs⟩ | ⟨e, rest, next, hi, _, hm, ht⟩
      · rw [hs.controller, hs.reported]
        exact ⟨hc, fun hr => by cases hr⟩
      · rw [ht.state]
        refine ⟨fun hsome => hm.ne_noted (.inr ?_), fun hr => ?_⟩
        · have hleft := ht.left
          split at hleft
          · next hcall => simp [hcall]
          · simp [hleft.2.1] at hsome
        · have hreported := ht.reported
          rw [hr] at hreported
          split at hreported
          · cases hreported
          · next hno =>
              obtain ⟨-, rfl, -⟩ := Request.report.inj (Option.some.inj hreported)
              exact hm.ne_noted (.inl fun he => hno (.inl he))
  | resumed hwake =>
      have ht := Controller.resume_resumed hwake i
      have hstate := hc (by rw [Controller.callback_of_wakeUp? hwake]; rfl)
      refine ⟨fun _ => ht.alike.state ▸ hstate, fun hr => ?_⟩
      have hreported := ht.reported
      rw [hr] at hreported
      split at hreported
      · cases hreported
      · obtain ⟨-, rfl, -⟩ := Request.report.inj (Option.some.inj hreported)
        exact hstate

theorem mem_of_mem_sent {l : List Request} (hl : ∀ r ∈ l, r.ticket?.isSome = true)
    {k : Container} {m : Name} {state : State} {value : Option Value}
    (h : .report m state value ∈ (k.sent l).inbox) : .report m state value ∈ k.inbox := by
  unfold Container.sent at h
  split at h
  · refine (List.mem_append.mp h).resolve_right fun hmem => ?_
    simpa [Request.ticket?] using hl _ hmem
  · exact h

/-- What a turn sends beside its report is no report. -/
theorem Unnoted.sent (h : s.Unnoted) (ho : s.Orderly) (hc : s.controllers[i]? = some c)
    (ht : s.Turns i c t) {m : Name} {state : State} {value : Option Value}
    (hmem : .report m state value ∈ (s.applyTurn i t).container.inbox) :
    state ≠ .starting true := by
  have htickets := (ht.turned (ho.attended hc)).tickets
  rw [(applies_applyTurn (List.getElem?_eq_some_iff.mp hc).1).container,
    ← Container.sent_append] at hmem
  cases hr : t.reported with
  | none =>
      rw [hr, Option.toList_none, Container.sent_nil] at hmem
      exact h.underway (mem_of_mem_sent htickets hmem)
  | some r =>
      rw [hr, Option.toList_some, Container.sent] at hmem
      split at hmem
      · rcases List.mem_append.mp hmem with hmem | hmem
        · exact h.underway (mem_of_mem_sent htickets hmem)
        · rw [← List.mem_singleton.mp hmem] at hr
          exact (ht.ne_noted (h.suspended hc)).2 hr
      · exact h.underway (mem_of_mem_sent htickets hmem)

theorem Unnoted.befalls (h : s.Unnoted) (hf : s.Befalls x i c')
    (hc' : c'.callback.isSome = true) : c'.state ≠ .starting true := by
  cases hf with
  | told messages hc he =>
      subst he
      rw [Controller.told_callback] at hc'
      rw [Controller.told_state]
      exact h.suspended hc hc'
  | alarmed hc he =>
      subst he
      rw [Controller.alarm_callback] at hc'
      have hne := h.suspended hc hc'
      exact hne
  | took hx hc hcan he =>
      subst he
      rw [Turn.final_callback] at hc'
      rw [Turn.final_state]
      exact ((Turns.took hcan).ne_noted (h.suspended hc)).1 hc'
  | resumed hx hc hwake he =>
      subst he
      rw [Turn.final_callback] at hc'
      rw [Turn.final_state]
      exact ((Turns.resumed hwake).ne_noted (h.suspended hc)).1 hc'
  | launched messages hx hi he =>
      subst he
      rw [Controller.told_callback] at hc'
      simp [Controller.launch] at hc'
  | ended hc hlive hfree he =>
      subst he
      simp [Controller.cut, hfree] at hc'

/-- A container that takes a request shows nothing else. -/
theorem Unnoted.receive (h : s.Unnoted) (ho : s.Orderly) {r : Request} {rest : List Request}
    (hi : s.container.inbox = r :: rest) {m : Name} {n : Node}
    (hn : s.receive.container.graph.nodes[m]? = some n) : n.state ≠ .starting true := by
  have hm := mirrors_trial s
  rw [← (hm.receive hi).1.graph] at hn
  refine (ho.sound hm).shown_foldl (by simp) (fun value => ?_) (fun n hn => h.shown hn) hn
  refine r.not_noted_mem_steps fun {m state value} he => ?_
  subst he
  exact h.underway (hi ▸ List.mem_cons_self)

theorem Unnoted.step (h : s.Unnoted) (ho : s.Orderly) (hs : Step s x s') : s'.Unnoted := by
  refine ⟨fun {m n} hn => ?_, fun {m state value} hmem => ?_,
    fun hc' => h.befalls (hs.befalls hc')⟩
  · by_cases hx : x = .move .receive
    · cases hs with
      | received r rest hserving hi => exact h.receive ho hi hn
      | calm hcalm => exact h.shown (hcalm.container ▸ hn)
      | _ => cases hx
    · rw [(hs.still hx).1] at hn
      exact h.shown hn
  · cases hs with
    | calm hcalm => exact h.underway (hcalm.container ▸ hmem)
    | opened origin hst hu =>
        rw [hu.container] at hmem
        exact h.underway hmem
    | asked origin o requests w ha =>
        rw [(sends_sendAll { s with world := w } requests).container] at hmem
        exact h.underway (mem_of_mem_sent ha.ticket_isSome hmem)
    | received r rest hserving hi =>
        rcases ho.receive_inbox hserving hi with he | ⟨he, -⟩
        · exact h.underway (hi ▸ List.mem_cons_of_mem _ (he ▸ hmem))
        · simp [he] at hmem
    | finished hst hq =>
        rw [(unmoved_finish s).container] at hmem
        exact h.underway hmem
    | took id c hc hcan => exact h.sent ho hc (.took hcan) hmem
    | resumed id c callback answer hc hwake => exact h.sent ho hc (.resumed hwake) hmem
    | joined id t outcome hj => exact h.underway (hj.container ▸ hmem)

theorem unnoted_run (hx : ∀ x ∈ happened, x ≠ .cancel) : (initial.run happened).Unnoted := by
  refine run_induction (P := fun happened => (initial.run happened).Unnoted) ?_ ?_ hx
  · refine ⟨fun {m n} hn => ?_, fun hmem => ?_, fun hc => ?_⟩
    · simp [initial, run, Container.fresh, Graph.empty] at hn
    · simp [initial, run, Container.fresh] at hmem
    · simp [initial, run] at hc
  · exact fun ho hs h => h.step ho hs

/-! ## The controller of a service -/

/-- The controllers a name had one after the other: all but the last are removed. -/
def Succeeded (s : System) : Prop :=
  ∀ {i j : Nat} {c d : Controller}, i < j → s.controllers[i]? = some c →
    s.controllers[j]? = some d → c.plan.name = d.plan.name → c.state = .removed

/-- A controller that is there stays there under its name, and never goes back. -/
theorem Orderly.goesOn (ho : s.Orderly) (hs : Step s x s') (hc : s.controllers[i]? = some c)
    (hc' : s'.controllers[i]? = some c') :
    c'.plan = c.plan ∧ c.state.phase ≤ c'.state.phase := by
  have hlt := (List.getElem?_eq_some_iff.mp hc).1
  have hplan : c'.plan = c.plan := by
    cases ho.becomes hs hc' with
    | rests hb h => exact Option.some.inj (hc.symm.trans hb) ▸ h.plan
    | takes hx hb hcan h =>
        obtain rfl := Option.some.inj (hc.symm.trans hb)
        exact h ▸ plan_take hcan _ _ _
    | launched plan ticket messages hx hlen => exact absurd hlt (Nat.not_lt.mpr hlen)
  rcases hs.advances hc' with ⟨b, hb, ha⟩ | ⟨hlen, -⟩
  · obtain rfl := Option.some.inj (hc.symm.trans hb)
    exact ⟨hplan, ha.phase_le⟩
  · exact absurd hlt (Nat.not_lt.mpr hlen)

theorem Orderly.removed_of_free (ho : s.Orderly) (hc : s.controllers[i]? = some c)
    (hfree : s.container.graph.nodes[c.plan.name]? = none) : c.state = .removed := by
  by_contra hne
  obtain ⟨n, hn, -⟩ := ho.hosts_of_ne_removed hc hne
  simp [hfree] at hn

theorem Succeeded.step (h : s.Succeeded) (ho : s.Orderly) (hs : Step s x s')
    (happly : s' = s.apply x) : s'.Succeeded := by
  intro i j c' d' hij hc' hd' hname
  have hlt' := (List.getElem?_eq_some_iff.mp hd').1
  rcases Nat.lt_or_ge j s.controllers.length with hj | hj
  · have hc := List.getElem?_eq_getElem (Nat.lt_trans hij hj)
    obtain ⟨hplan, hphase⟩ := ho.goesOn hs hc hc'
    have hd := List.getElem?_eq_getElem hj
    have hremoved := h hij hc hd (by rw [← hplan, hname, (ho.goesOn hs hd hd').1])
    rw [hremoved] at hphase
    exact State.phase_eq_five.mp (Nat.le_antisymm c'.state.phase_le_five hphase)
  · -- the later one is being installed, so its name is free
    cases ho.becomes hs hd' with
    | rests hb | takes hx hb =>
        exact absurd (List.getElem?_eq_some_iff.mp hb).1 (Nat.not_lt.mpr hj)
    | launched plan ticket messages hx =>
        subst hx
        obtain ⟨plan, ticket, rest, messages, -, -, hfree, rfl, hd⟩ :=
          launched_receive hlt' hj happly
        obtain rfl := Option.some.inj (hd'.symm.trans hd)
        have hc := List.getElem?_eq_getElem hij
        obtain ⟨hplan, hphase⟩ := ho.goesOn hs hc hc'
        have hfree : s.container.graph.nodes[plan.name]? = none :=
          Graph.not_contains_iff.mp (Bool.eq_false_iff.mp hfree)
        have hremoved := ho.removed_of_free hc (by
          rwa [← hplan, hname, Controller.told_plan])
        rw [hremoved] at hphase
        exact State.phase_eq_five.mp (Nat.le_antisymm c'.state.phase_le_five hphase)

theorem succeeded_run (hx : ∀ x ∈ happened, x ≠ .cancel) : (initial.run happened).Succeeded := by
  refine run_induction (P := fun happened => (initial.run happened).Succeeded) ?_ ?_ hx
  · intro i j c d hij hc
    simp [initial, run] at hc
  · intro happened x ho hs h
    exact h.step ho hs (run_snoc _ _ _)

/-- The controller of a service: the one launched last under its name. -/
def controllerOf? (s : System) (name : Name) : Option Controller :=
  s.controllers.reverse.find? (·.plan.name = name)

theorem controllerOf?_eq_some (hc : s.controllers[i]? = some c)
    (hlater : ∀ {j : Nat} {d : Controller}, i < j → s.controllers[j]? = some d →
      d.plan.name ≠ c.plan.name) : s.controllerOf? c.plan.name = some c := by
  have hsplit : s.controllers = s.controllers.take i ++ c :: s.controllers.drop (i + 1) := by
    obtain ⟨hlt, rfl⟩ := List.getElem?_eq_some_iff.mp hc
    simp
  refine List.find?_eq_some_iff_append.mpr ⟨by simp, (s.controllers.drop (i + 1)).reverse,
    (s.controllers.take i).reverse, ?_, fun d hd => ?_⟩
  · conv_lhs => rw [hsplit]
    simp
  · obtain ⟨k, hk⟩ := List.mem_iff_getElem?.mp (List.mem_reverse.mp hd)
    rw [List.getElem?_drop] at hk
    simpa using hlater (by omega) hk

/-- What is answered tells the state of the controller of a service, but for one thing: that it was
asked to stop while it starts. -/
structure Tells (s : System) (name : Name) (answer : Option State) : Prop where
  none_iff : answer = none ↔ ∀ c, s.controllerOf? name = some c → c.state = .removed
  exact : ∀ c, s.controllerOf? name = some c → c.state ≠ .removed → c.state ≠ .starting true →
    answer = some c.state
  asked : ∀ c, s.controllerOf? name = some c → c.state = .starting true →
    answer = some (.starting false)

theorem Orderly.tells (ho : s.Orderly) (hu : s.Unnoted) (hs : s.Succeeded)
    (hsilent : reportsOf name s.container.inbox = [])
    (hrest : ∀ c, s.controllerOf? name = some c → c.callback = none) :
    s.Tells name (s.container.graph.state? name) := by
  unfold Graph.state?
  cases hn : s.container.graph.nodes[name]? with
  | none =>
      have hremoved : ∀ c, s.controllerOf? name = some c → c.state = .removed := by
        intro c hc
        obtain ⟨i, hi⟩ := List.mem_iff_getElem?.mp
          (List.mem_reverse.mp (List.mem_of_find?_eq_some hc))
        have hname : c.plan.name = name := by simpa using List.find?_some hc
        exact ho.removed_of_free hi (hname ▸ hn)
      refine ⟨⟨fun _ => hremoved, fun _ => rfl⟩, fun c hc hne => absurd (hremoved c hc) hne,
        fun c hc hst => ?_⟩
      rw [hremoved c hc] at hst
      contradiction
  | some n =>
      obtain ⟨c, hc, hl⟩ := ho.consistent.linked hn
      rw [hsilent] at hl
      have hreached : c.callback = none → n.state.phase = c.state.phase := by
        intro hidle
        obtain ⟨state, hmem, hphase⟩ := hl.reached hidle
        rw [Node.outlook, List.map_nil, List.mem_singleton] at hmem
        exact hmem ▸ hphase
      have hinstalled : c.state ≠ .removed := by
        intro hr
        refine hl.installed (State.phase_eq_five.mp ?_)
        rw [hreached (Controller.free_of_removed (ho.attended hc).callback hr), hr]
        rfl
      have hlast : s.controllerOf? name = some c := hl.name ▸ controllerOf?_eq_some hc
        fun hij hd hname => hinstalled (hs hij hc hd hname.symm)
      have hphase := hreached (hrest c hlast)
      have hshown := hu.shown hn
      have hsame : ∀ {b : Controller}, s.controllerOf? name = some b → b = c := fun hb =>
        Option.some.inj (hb.symm.trans hlast)
      refine ⟨⟨fun hnone => by simp at hnone, fun hr => absurd (hr c hlast) hinstalled⟩,
        fun b hb hne hasked => ?_, fun b hb hst => ?_⟩
      · obtain rfl := hsame hb
        exact congrArg some (State.eq_of_phase_eq_of_ne hphase hshown hasked)
      · obtain rfl := hsame hb
        exact congrArg some (State.eq_of_phase_eq_of_ne (hphase.trans (hst ▸ rfl)) hshown (by simp))

/-- Asked for the state of a service, the container tells that of its controller. -/
theorem answers_state (hx : ∀ x ∈ happened, x ≠ .cancel) {ticket : Ticket} {rest : List Request}
    (hi : (initial.run happened).container.inbox = .state name ticket :: rest)
    (hsilent : reportsOf name (initial.run happened).container.inbox = [])
    (hrest : ∀ c, (initial.run happened).controllerOf? name = some c → c.callback = none) :
    ∃ answer, ((initial.run happened).apply (.move .receive)).world.outcome? ticket =
        some (.ok (.state answer)) ∧
      (initial.run happened).Tells name answer := by
  have ho := orderly_run hx
  refine ⟨_, ?_, ho.tells (unnoted_run hx) (succeeded_run hx) hsilent hrest⟩
  generalize hsys : initial.run happened = s at *
  have hserving : s.container.isServing = true := by
    by_contra hno
    simp [(ho.unserved (by simpa using hno)).2] at hi
  have hopen : s.world.status ticket = some none := by
    refine (hsys ▸ owned_run hx).mem_hands.mp ?_
    simp [hands, Container.tickets, hi, Request.ticket?]
  have happly : s.apply (.move .receive) = s.receive := by
    simp [apply, perform, performNow, canMove, hserving, hi]
  have hreceive : s.receive =
      settle { s with container := { s.container with inbox := rest } } ticket
        (.ok (.state (s.container.graph.state? name))) := by
    rw [receive_eq hi]
    dsimp only
    rw [if_neg]
    · rfl
    · intro hclosed
      have hstage : s.container.stage = .closed := by
        have hu := unmoved_settle { s with container := { s.container with inbox := rest } } ticket
          (.ok (.state (s.container.graph.state? name)))
        exact (congrArg Container.stage hu.container).symm.trans hclosed
      simp [Container.isServing, hstage] at hserving
  rw [happly, hreceive, World.outcome?_eq_some]
  refine status_settle_self ?_ _
  exact hopen

/-- A service that takes its time to start is asked to stop, and then its state is asked for. -/
def asksMeanwhile : List Stimulus :=
  [.request (.request 0) .start,
    .request (.request 1) (.install
      { name := "slow", value := .unit, dependencies := [], slots := [], group := none
        rosters := [], forget := false
        callbacks := .scripted false [.runAsync ⟨1000, .done⟩ false false] [] }),
    .move .receive, .move (.take 0), .move .receive,
    .request (.request 2) (.remove "slow"), .move .receive, .move (.take 0),
    .request (.request 3) (.state "slow")]

theorem answers_asksMeanwhile : (∀ x ∈ asksMeanwhile, x ≠ .cancel) ∧
    ∃ answer, ((initial.run asksMeanwhile).apply (.move .receive)).world.outcome? 2 =
        some (.ok (.state answer)) ∧ (initial.run asksMeanwhile).Tells "slow" answer := by
  have hx : ∀ x ∈ asksMeanwhile, x ≠ .cancel := by simp [asksMeanwhile]
  have hrest : ((initial.run asksMeanwhile).controllerOf? "slow").all
      (·.callback.isNone) = true := by decide +kernel
  have hi : (initial.run asksMeanwhile).container.inbox = [.state "slow" 2] := rfl
  refine ⟨hx, answers_state hx hi (by decide +kernel) fun c hc => ?_⟩
  rw [hc] at hrest
  simpa using hrest

/-- The state of its controller is not always what is told of a service: nobody is told that it was
asked to stop while it starts. -/
theorem not_exact_of_asked : ¬∀ (happened : List Stimulus) (name : Name) (ticket : Ticket)
    (rest : List Request) (c : Controller), (∀ x ∈ happened, x ≠ .cancel) →
    (initial.run happened).container.inbox = .state name ticket :: rest →
    reportsOf name (initial.run happened).container.inbox = [] →
    (initial.run happened).controllerOf? name = some c → c.callback = none → c.state ≠ .removed →
    ((initial.run happened).apply (.move .receive)).world.outcome? ticket =
      some (.ok (.state (some c.state))) := by
  intro h
  have hasked : ((initial.run asksMeanwhile).controllerOf? "slow").any (fun c =>
      c.callback.isNone && c.state = .starting true) = true := by decide +kernel
  obtain ⟨c, hc, hstate⟩ := (Option.any_eq_true _ _).mp hasked
  rw [Bool.and_eq_true, Option.isNone_iff_eq_none, decide_eq_true_eq] at hstate
  have hexact := h asksMeanwhile "slow" 2 [] c (by simp [asksMeanwhile]) rfl (by decide +kernel) hc
    hstate.1 (by simp [hstate.2])
  rw [hstate.2] at hexact
  revert hexact
  decide +kernel

end System

end ServiceHost
