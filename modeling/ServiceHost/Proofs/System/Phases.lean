import ServiceHost.Proofs.System.Ownership
import ServiceHost.Proofs.System.Tameness

/-! # Services that are only started, or only stopped

As long as an open container is asked for nothing that would stop a service, or for nothing that
would start one, no callback of the other phase is ever called. -/

namespace ServiceHost

open ServiceHost.Graph (Trial TrialStep signalsTo)

namespace Graph.Trial

variable {t : Trial} {s : TrialStep} {i : Inbox} {x : Signal}

/-- What a step may tell an incarnation, and for which reason. -/
inductive Tells (t : Trial) (s : TrialStep) (i : Inbox) : Signal → Prop
  | available (h : ∀ a, ¬s.Stops a) : Tells t s i .dependenciesAvailable
  | stopping {a : Name} (hs : s.Stops a) (h : t.graph.Hosts a i) : Tells t s i .stopping
  | unavailable {a : Name} (hs : s.Stops a) (h : t.graph.Needs i a) :
    Tells t s i .dependenciesUnavailable
  | alone {a : Name} (hs : s.Stops a) (h : t.graph.Hosts a i) : Tells t s i .dependentsStopped
  | freed {a m : Name} {k : Node} (hr : s.Removes a) (hk : t.graph.nodes[m]? = some k)
    (hi : k.inbox = i) (hp : k.AwaitsOnly a) : Tells t s i .dependentsStopped

theorem tells_of_mem_stopSignals {a : Name} (hs : s.Stops a)
    (hx : x ∈ t.graph.stopSignals a i) : t.Tells s i x := by
  unfold stopSignals at hx
  split at hx
  · split at hx
    · next hneeds =>
        obtain rfl := List.mem_singleton.mp hx
        exact .unavailable hs hneeds
    · split at hx
      · next hhosts =>
          obtain rfl := List.mem_singleton.mp hx
          exact .alone hs hhosts.1
      · cases hx
  · cases hx

theorem Sound.tells (ht : t.Sound) (hx : x ∈ signalsTo i (t.sends s)) : t.Tells s i x := by
  have hg := ht.coherent
  cases s with
  | register a ds group refs =>
      by_cases hc : t.graph.contains a = true
      · rw [sends_register_of_taken hc] at hx
        cases hx
      · rw [sends_register_of_free hc, signalsTo_register_eq, signalsTo_resolve] at hx
        split at hx
        · obtain rfl := List.mem_singleton.mp hx
          exact .available fun _ => id
        · cases hx
  | remove a =>
      change x ∈ signalsTo i (t.graph.requestRemoval a).2 at hx
      cases hn : t.graph.nodes[a]? with
      | none => simp [requestRemoval_of_none hn] at hx
      | some n =>
          have hstop : (TrialStep.remove a).Stops a := rfl
          rw [signalsTo_requestRemoval hn, hg.signalsTo_beginStopping_eq, List.mem_append] at hx
          rcases hx with hx | hx
          · split at hx
            · next hi =>
                obtain rfl := List.mem_singleton.mp hx
                exact .stopping hstop ⟨n, hn, hi⟩
            · cases hx
          · exact tells_of_mem_stopSignals hstop hx
  | report a reached value =>
      change x ∈ signalsTo i (t.graph.report a reached value).2 at hx
      by_cases hleave : reached.Leaving
      · have hstop : (TrialStep.report a reached value).Stops a := ⟨rfl, hleave⟩
        cases hn : t.graph.nodes[a]? with
        | none => simp [report_of_none hn] at hx
        | some n =>
            by_cases hremoved : reached = .removed
            · subst hremoved
              rw [hg.signalsTo_report_removed hn, List.mem_append] at hx
              rcases hx with hx | hx
              · exact tells_of_mem_stopSignals hstop hx
              · split at hx
                · next hfree =>
                    obtain ⟨m, _, k, hk, hi, hp⟩ := hfree
                    obtain rfl := List.mem_singleton.mp hx
                    exact .freed rfl hk hi hp
                · cases hx
            · rw [report_stop hn hleave hremoved, hg.signalsTo_note_beginStopping hn] at hx
              exact tells_of_mem_stopSignals hstop hx
      · obtain rfl := hg.mem_signalsTo_report hleave value x hx
        exact .available fun b hb => hleave hb.2
  | contains a | state a | disconnect a => simp [sends, perform] at hx

end Graph.Trial

/-! ## Requests -/

/-- A request a container may get while services are only started, or only stopped. -/
def Request.Suits (phase : Phase) : Request → Prop
  | .install plan _ => phase = .start ∧ plan.conduct.Tame .start
  | .remove .. => phase = .stop
  | .close _ => False
  | .report _ reached _ => phase.Reports reached
  | .has .. | .state .. | .text _ => True

/-- A step on the graph that such a request may be: it stops a service, or it stops none. -/
def Graph.TrialStep.Suits (step : TrialStep) : Phase → Prop
  | .start => ∀ a, ¬step.Stops a
  | .stop => ∃ a, step.Stops a

theorem Request.Suits.steps {phase : Phase} {r : Request} (h : r.Suits phase) (c : Container) :
    r.steps c = [] ∨ ∃ step, r.steps c = [step] ∧ step.Suits phase := by
  cases r with
  | install plan ticket =>
      obtain ⟨rfl, _⟩ := h
      by_cases hst : c.stage = .opened
      · exact .inr ⟨_, if_pos hst, fun _ => id⟩
      · exact .inl (if_neg hst)
  | remove name ticket =>
      obtain rfl : phase = .stop := h
      exact .inr ⟨_, rfl, name, rfl⟩
  | close ticket => exact h.elim
  | report name state value =>
      refine .inr ⟨_, rfl, ?_⟩
      cases phase with
      | start => exact fun a hs => h hs.2
      | stop => exact ⟨name, rfl, h⟩
  | has name ticket => exact .inl rfl
  | state name ticket => exact .inl rfl
  | text ticket => exact .inl rfl

theorem Request.Suits.sends {phase : Phase} {r : Request} (h : r.Suits phase) {t : Trial}
    (ht : t.Sound) (c : Container) {i : Inbox} {x : Signal}
    (hx : x ∈ signalsTo i (t.trace (r.steps c))) : phase.Sends x := by
  rcases h.steps c with hnone | ⟨step, hstep, hstops⟩
  · simp [hnone, Trial.trace] at hx
  · rw [hstep, Trial.trace, Trial.trace, List.append_nil] at hx
    cases phase with
    | start =>
        cases ht.tells hx with
        | available h => exact .inl rfl
        | stopping hs | unavailable hs | alone hs => exact absurd hs (hstops _)
        | freed hr => exact absurd hr.stops (hstops _)
    | stop =>
        obtain ⟨a, ha⟩ := hstops
        cases ht.tells hx with
        | available h => exact absurd ha (h a)
        | stopping | unavailable | alone | freed => simp [Phase.Sends]

namespace System

variable {s s' : System} {phase : Phase}

/-- A request to close apart, an open container stays open and gets no requests by taking one. -/
structure StaysOpen (s s' : System) : Prop where
  opened : s'.container.stage = .opened
  inbox : s'.container.inbox = s.container.inbox
  tasks : s'.tasks = s.tasks

theorem StaysOpen.of_unmoved (hst : s.container.stage = .opened) (hu : s.Unmoved s') :
    s.StaysOpen s' :=
  ⟨by rw [hu.container, hst], by rw [hu.container], hu.tasks⟩

theorem StaysOpen.of_operates (hst : s.container.stage = .opened) {outcome : Graph.Outcome}
    (ho : s.Operates outcome s') : s.StaysOpen s' :=
  ⟨by rw [ho.container]; exact hst, by rw [ho.container], ho.tasks⟩

theorem staysOpen_process (hst : s.container.stage = .opened) {r : Request}
    (hr : ∀ k, r ≠ .close k) : s.StaysOpen (s.process r) := by
  cases r with
  | has name ticket => exact .of_unmoved hst (unmoved_settle s _ _)
  | state name ticket => exact .of_unmoved hst (unmoved_settle s _ _)
  | text ticket => exact .of_unmoved hst (unmoved_settle s _ _)
  | close ticket => exact absurd rfl (hr ticket)
  | install plan ticket =>
      show s.StaysOpen (s.install plan ticket)
      unfold System.install
      split
      · exact .of_unmoved hst (unmoved_refuse s _ _)
      · split
        · exact .of_unmoved hst (unmoved_refuse s _ _)
        · have ho := StaysOpen.of_operates (s := { s with
            controllers := s.controllers ++ [Controller.launch plan ticket] }) hst
            (operates_install s plan ticket)
          exact ⟨ho.opened, ho.inbox, ho.tasks⟩
  | remove name ticket =>
      show s.StaysOpen (s.remove name ticket)
      unfold System.remove
      split
      · have ho := StaysOpen.of_operates hst
          (operates_applyGraph s (s.container.graph.requestRemoval name))
        exact ⟨ho.opened, ho.inbox, ho.tasks⟩
      · exact .of_unmoved hst (unmoved_settle s _ _)
  | report a reached value =>
      show s.StaysOpen (s.acceptReport a reached value)
      rw [acceptReport_eq]
      have ho := StaysOpen.of_operates hst
        (operates_applyGraph s (s.container.graph.report a reached value))
      dsimp only
      generalize s.applyGraph (s.container.graph.report a reached value) = s₁ at ho
      split
      · have hu := StaysOpen.of_unmoved (s := s₁.freeRemovals a) ho.opened
          (unmoved_settleAll _ (s₁.container.removals[a]?.getD []) (.ok .done))
        generalize (s₁.freeRemovals a).settleAll (s₁.container.removals[a]?.getD []) (.ok .done) =
          s₂ at hu
        have hsame : s₂.closeIfEmpty = s₂ := by simp [closeIfEmpty, hu.opened]
        rw [hsame]
        exact ⟨hu.opened, hu.inbox.trans ho.inbox, hu.tasks.trans ho.tasks⟩
      · exact ho

theorem staysOpen_receive (hst : s.container.stage = .opened) {r : Request}
    {rest : List Request} (hi : s.container.inbox = r :: rest) (hr : ∀ k, r ≠ .close k) :
    StaysOpen { s with container := { s.container with inbox := rest } } s.receive := by
  have ho := staysOpen_process
    (s := { s with container := { s.container with inbox := rest } }) hst hr
  unfold System.receive
  rw [hi]
  dsimp only
  rwa [if_neg (by simp [ho.opened])]

/-! ## Steps -/

end System

/-- A task with tame work, left by a callback of a phase. -/
structure Task.Tame (phase : Phase) (t : Task) : Prop where
  called : t.phase = phase
  work : t.work.Tame phase
  ends : t.Ends

namespace System

variable {s s' : System} {phase : Phase}

/-- An open container whose services are only started, or only stopped. -/
structure Phased (phase : Phase) (s : System) : Prop where
  opened : s.container.stage = .opened
  requests : ∀ r ∈ s.container.inbox, r.Suits phase
  controllers : ∀ {i : Nat} {c : Controller}, s.controllers[i]? = some c → c.ended = false →
    c.Tame phase
  tasks : ∀ {k : Nat} {t : Task}, s.tasks[k]? = some t → t.watched = true → t.Tame phase

theorem Phased.isServing (h : s.Phased phase) : s.container.isServing = true := by
  simp [Container.isServing, h.opened]

end System

namespace Controller

variable {phase : Phase} {c c' : Controller}

theorem Tame.noticed (h : c.Tame phase) (hn : c.Noticed c') : c'.Tame phase := by
  rcases hn with rfl | rfl
  · exact h
  · refine ⟨h.conduct, fun callback hc => ?_, h.state, c.alarm_signals ▸ h.signals⟩
    obtain ⟨k, hk, rfl⟩ := Option.map_eq_some_iff.mp hc
    have ht := h.callback k hk
    split
    · exact ⟨ht.called, ht.rest, ht.deferred, by simp⟩
    · exact ht

theorem Tame.told (h : c.Tame phase) {messages : List Message}
    (hm : ∀ x ∈ messages.filterMap Message.signal?, phase.Sends x) :
    (c.told messages).Tame phase := by
  refine ⟨c.told_plan messages ▸ h.conduct, c.told_callback messages ▸ h.callback,
    c.told_state messages ▸ h.state, fun x hx => ?_⟩
  rw [c.told_signals, List.mem_append] at hx
  rcases hx with hx | hx
  · exact h.signals x hx
  · split at hx
    · cases hx
    · exact hm x hx

theorem Tame.final {t : Turn} (h : t.controller.Tame phase) (hended : t.controller.ended = false)
    (task : Nat) : (t.final task).Tame phase := by
  refine ⟨?_, ?_, ?_, ?_⟩
  · rw [Turn.final_plan]
    exact h.conduct
  · rw [Turn.final_callback]
    exact h.callback
  · rw [Turn.final_state]
    exact h.state
  · rw [Turn.final_signals hended]
    exact h.signals

theorem tame_launch {plan : Plan} (h : plan.conduct.Tame .start) (ticket : Ticket) :
    (launch plan ticket).Tame .start :=
  ⟨h, by simp [launch], .inl rfl, by simp [signals, launch]⟩

end Controller

/-- The event that ends a tame callback. -/
theorem Task.Tame.event {phase : Phase} {t : Task} (h : t.Tame phase)
    {outcome : Except Failure Unit} (ho : t.outcome? = some outcome) :
    phase.Sends (t.event outcome).signal := by
  obtain rfl := h.called
  cases hp : t.phase with
  | start =>
      have houtcome := h.ends outcome ho
      rw [h.work hp] at houtcome
      simp [Task.event, hp, houtcome, Ending.outcome, Event.signal, Phase.Sends]
  | stop => simp [Task.event, hp, Event.signal, Phase.Sends]

namespace System

variable {s s' : System} {phase : Phase}

theorem Phased.turn (h : s.Phased phase) {id : Nat} {c : Controller} {t : Turn}
    (hc : s.controllers[id]? = some c) (ht : t.Tame phase c) :
    (s.applyTurn id t).Phased phase := by
  have hid : id < s.controllers.length := (List.getElem?_eq_some_iff.mp hc).1
  have ha := applies_applyTurn (t := t) hid
  refine ⟨?_, fun r hr => ?_, fun {i} {c'} hc' hended => ?_, fun {k} {task} htask hw => ?_⟩
  · rw [ha.container, sent_stage, h.opened]
  · rw [ha.container, Container.sent, if_pos h.isServing, ht.requests, List.nil_append,
      List.mem_append] at hr
    rcases hr with hr | hr
    · exact h.requests r hr
    · obtain ⟨reached, value, rfl, hreports⟩ := ht.reported r (by simpa using hr)
      exact hreports
  · rcases ha.cases_controller hc' with ⟨rfl, rfl⟩ | ⟨_, hc'⟩
    · rw [Turn.final_ended] at hended
      exact ht.controller.final hended _
    · exact h.controllers hc' hended
  · rcases ha.cases_task htask with ⟨p, work, hd, rfl⟩ | ⟨task', htask', rfl | rfl⟩
    · obtain ⟨rfl, hwork⟩ := ht.deferred p work hd
      exact ⟨rfl, hwork, fun _ ho => by cases ho⟩
    · exact h.tasks htask' hw
    · have htame := h.tasks htask' hw
      exact ⟨htame.called, htame.work, htame.ends⟩

theorem Phased.calm (h : s.Phased phase) (hs : s.Calm s') : s'.Phased phase := by
  refine ⟨hs.container ▸ h.opened, hs.container ▸ h.requests, fun {i} {c'} hc' hended => ?_,
    fun {k} {t'} ht' hw => ?_⟩
  · obtain ⟨c, hc, hn⟩ := hs.exists_controller hc'
    refine (h.controllers hc ?_).noticed hn
    rcases hn with rfl | rfl <;> exact hended
  · obtain ⟨t, ht, hf⟩ := hs.exists_task ht'
    have hwatched := hf.watched.resolve_right (by simp [hw])
    have htame := h.tasks ht (hwatched ▸ hw)
    exact ⟨hf.phase.trans htame.called, hf.work ▸ htame.work, hf.ends htame.ends⟩

theorem Phased.joins (h : s.Phased phase) {t : Task} {outcome : Except Failure Unit} {id : Nat}
    (hs : s.Joins t outcome id s') : s'.Phased phase := by
  refine ⟨hs.container ▸ h.opened, hs.container ▸ h.requests, fun {i} {c'} hc' hended => ?_,
    fun {k} {t'} ht' hw => ?_⟩
  · rw [hs.controllers] at hc'
    obtain ⟨c, hc, rfl⟩ := Option.map_eq_some_iff.mp hc'
    rw [Controller.told_ended] at hended
    refine (h.controllers hc hended).told fun x hx => ?_
    have hx : x ∈ signalsTo i [⟨t.owner, .lifecycle (t.event outcome)⟩] := hx
    rw [Graph.signalsTo_cons, Graph.signalsTo_nil, List.append_nil] at hx
    split at hx
    · obtain rfl : x = (t.event outcome).signal := by simpa [Message.signal?] using hx
      exact (h.tasks hs.task hs.watched).event hs.ended
    · cases hx
  · exact h.tasks (hs.task_of_watched ht' hw) hw

theorem Phased.receive (h : s.Phased phase) (ho : s.Orderly) {r : Request} {rest : List Request}
    (hi : s.container.inbox = r :: rest) : s.receive.Phased phase := by
  have hsuits := h.requests r (hi ▸ List.mem_cons_self ..)
  have hopen := staysOpen_receive h.opened hi fun k hk => by
    rw [hk] at hsuits
    exact hsuits
  have hmirrors := (mirrors_trial s).receive hi
  refine ⟨hopen.opened, fun x hx => ?_, fun {i} {c'} hc' hended => ?_, fun {k} {t} ht => ?_⟩
  · rw [hopen.inbox] at hx
    exact h.requests x (hi ▸ List.mem_cons_of_mem _ hx)
  · rw [hmirrors.2 i] at hc'
    obtain ⟨c, hc, rfl⟩ := Option.map_eq_some_iff.mp hc'
    rw [Controller.told_ended] at hended
    have htame : c.Tame phase := by
      rw [List.getElem?_append] at hc
      split at hc
      · exact h.controllers hc hended
      · have hmem := List.mem_of_getElem? hc
        cases r with
        | install plan ticket =>
            obtain ⟨rfl, hplan⟩ := hsuits
            simp only [launches] at hmem
            split at hmem
            · obtain rfl := List.mem_singleton.mp hmem
              exact Controller.tame_launch hplan ticket
            · cases hmem
        | _ => cases hmem
    exact htame.told fun x hx => hsuits.sends (ho.sound (mirrors_trial s)) s.container hx
  · rw [hopen.tasks] at ht
    exact h.tasks ht

/-- A suspended callback goes on. -/
theorem Phased.resume (h : s.Phased phase) (ho : s.Orderly) {id : Nat} {c : Controller}
    {callback : Callback} {answer : Option (Awaited × Except Error Answer)}
    (hc : s.controllers[id]? = some c) (hwake : c.wakeUp? s.world = some (callback, answer)) :
    Turn.Tame phase c (c.resume id s.world) ∧
      (c.resume id s.world).world.cells = s.world.cells := by
  have hattended := ho.attended hc
  have hin := hattended.callback callback (Controller.callback_of_wakeUp? hwake)
  exact (h.controllers hc (hattended.live hin)).resume hwake hin id

/-- Whatever happens by itself, services are only started, or only stopped. -/
theorem Phased.step (h : s.Phased phase) (ho : s.Orderly) {x : Stimulus} (hs : Step s x s')
    (hx : x.isInternal = true) (haccepts : ∀ {i : Nat} {c : Controller},
      s.controllers[i]? = some c → c.Accepts s.world.cells) : s'.Phased phase := by
  cases hs with
  | calm hcalm => exact h.calm hcalm
  | opened | asked => cases hx
  | received r rest hserving hi => exact h.receive ho hi
  | finished hst => simp [h.opened] at hst
  | took id c hc hcan =>
      have hended : c.ended = false := by simp_all [Controller.canTake]
      exact h.turn hc ((h.controllers hc hended).take hcan id (haccepts hc)).1
  | resumed id c callback answer hc hwake => exact h.turn hc (h.resume ho hc hwake).1
  | joined id t outcome hj => exact h.joins hj

/-- Whoever is only stopped is not offered anything. -/
theorem Phased.accepts (h : s.Phased .stop) (ho : s.Orderly) {i : Nat} {c : Controller}
    (hc : s.controllers[i]? = some c) : c.Accepts s.world.cells := by
  intro values hmem
  cases hended : c.ended with
  | true => simp [((ho.attended hc).ended hended).2] at hmem
  | false =>
      have hx : Signal.dependenciesAvailable ∈ c.signals :=
        List.mem_filterMap.mpr ⟨_, hmem, rfl⟩
      exact absurd rfl ((h.controllers hc hended).signals _ hx).1

end System

end ServiceHost
