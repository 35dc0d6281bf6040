import ServiceHost.Proofs.System.Closing
import ServiceHost.Proofs.System.Phases

/-! # Removing a service

A service that is removed takes along whoever depends on it, itself or through others, and no one
else: the others are told nothing and go on as they did. -/

namespace ServiceHost

open ServiceHost.Graph (Trial TrialStep signalsTo)

namespace Graph

/-- A service, and whoever depends on it, itself or through others. -/
inductive Above (g : Graph) (a : Name) : Name → Prop
  | self : Above g a a
  | dependent {d m : Name} {n : Node} (h : Above g a d) (hn : g.nodes[m]? = some n)
    (hd : d ∈ n.dependencies) : Above g a m

/-- Whoever is above a service is in every set that contains it and is closed under dependents. -/
theorem Above.mem_of_closed {g : Graph} {a : Name} {l : List Name} (ha : a ∈ l)
    (hl : ∀ p ∈ g.nodes.toList, (∃ d ∈ l, d ∈ p.2.dependencies) → p.1 ∈ l) {m : Name}
    (h : g.Above a m) : m ∈ l := by
  induction h with
  | self => exact ha
  | @dependent d m n _ hn hd ih =>
      exact hl (m, n) (Std.ExtTreeMap.mem_toList_iff_getElem?_eq_some.mpr hn) ⟨d, ih, hd⟩

namespace Trial

variable {t : Trial} {step : TrialStep} {b m : Name} {n n' : Node}

/-- A step that stops a service installs none. -/
theorem length_next_of_stops (hb : step.Stops b) :
    (t.next step).inboxes.length = t.inboxes.length := by
  cases step with
  | remove a => rfl
  | report a reached value => rfl
  | _ => exact hb.elim

theorem Sound.exists_of_stops (ht : t.Sound) (hb : step.Stops b)
    (hn' : (t.next step).graph.nodes[m]? = some n') :
    ∃ n, t.graph.nodes[m]? = some n ∧ n'.inbox = n.inbox ∧ n'.dependencies = n.dependencies ∧
      (n'.stopping = true ↔ n.stopping = true ∨ step.Stops m) := by
  have hspec := stepSpec ht step
  cases hn : t.graph.nodes[m]? with
  | none =>
      obtain ⟨hi, hlt, _⟩ := hspec.new hn hn'
      rw [length_next_of_stops hb, hi] at hlt
      exact absurd hlt (Nat.lt_irrefl _)
  | some n =>
      by_cases hr : step.Removes m
      · simp [hspec.gone hr] at hn'
      · obtain ⟨k, hk, hs⟩ := hspec.survives hn hr
        obtain rfl := Option.some.inj (hk.symm.trans hn')
        exact ⟨n, rfl, hs.inbox, hs.dependencies, hs.stopping⟩

/-- Whoever is not stopped by a step stays as it is shown. -/
theorem Sound.spares (ht : t.Sound) (hb : step.Stops b) (hno : ¬step.Stops m)
    (hn : t.graph.nodes[m]? = some n) :
    ∃ n', (t.next step).graph.nodes[m]? = some n' ∧ n'.state = n.state ∧
      n'.stopping = n.stopping := by
  obtain ⟨k, hk, hs⟩ := (stepSpec ht step).survives hn fun hr => hno hr.stops
  refine ⟨k, hk, ?_, by simpa [hno] using hs.stopping⟩
  have hshown : ∃ n', (t.next step).graph.nodes[m]? = some n' ∧ Shown n n' n.state none := by
    cases step with
    | remove a => exact ht.coherent.shown_requestRemoval hn
    | report a reached value =>
        cases ha : t.graph.nodes[a]? with
        | none =>
            refine ⟨n, ?_, .of_same rfl rfl⟩
            show (t.graph.report a reached value).1.nodes[m]? = _
            rw [report_of_none ha, hn]
        | some j =>
            have ham : a ≠ m := by
              rintro rfl
              obtain ⟨_, hleave⟩ := hb
              exact hno ⟨rfl, hleave⟩
            exact ht.coherent.shown_report_of_ne ha hn ham reached value
    | _ => exact hb.elim
  obtain ⟨n', hn', hshow⟩ := hshown
  rw [← Option.some.inj (hk.symm.trans hn')] at hshow
  exact hshow.state

/-- A step that stops a service is heard of by it, by those that depend on it, and by those that
wait for nobody else. -/
theorem Sound.hearer (ht : t.Sound) (hb : step.Stops b) {i : Inbox} {x : Signal}
    (hx : x ∈ signalsTo i (t.sends step)) : t.graph.Hosts b i ∨ t.graph.Needs i b ∨
      ∃ (m : Name) (k : Node), t.graph.nodes[m]? = some k ∧ k.inbox = i ∧ k.stopping = true := by
  cases ht.tells hx with
  | available h => exact absurd hb (h b)
  | stopping hs h => exact .inl (hs.eq hb ▸ h)
  | unavailable hs h => exact .inr (.inl (hs.eq hb ▸ h))
  | alone hs h => exact .inl (hs.eq hb ▸ h)
  | freed hr hk hi hp =>
      obtain ⟨p, hp, _⟩ := hp
      exact .inr (.inr ⟨_, _, hk, hi, (ht.coherent.pending hk hp).1⟩)

/-- Whoever depends on a service is told when that begins to stop. -/
theorem Sound.warned (ht : t.Sound) {d : Name} {k : Node} (hk : t.graph.nodes[d]? = some k)
    (hs : k.stopping = false) (hstops : step.Stops d) (hn : t.graph.nodes[m]? = some n)
    (hd : d ∈ n.dependencies) : Warned (signalsTo n.inbox (t.sends step)) := by
  refine ⟨.dependenciesUnavailable, ?_, .inr rfl⟩
  rw [← List.count_pos_iff, (signalSpec ht step n.inbox).unavailable,
    if_pos ⟨d, hstops, ⟨k, hk, hs⟩, m, n, hn, rfl, hd⟩]
  exact Nat.one_pos

end Trial

end Graph

namespace System

variable {s₀ s s' : System} {a : Name}

/-- The incarnation with this number is that of a service to be taken along. -/
def Within (s₀ : System) (a : Name) (i : Nat) : Prop :=
  ∃ m, s₀.container.graph.Above a m ∧ s₀.container.graph.Hosts m i

/-- Since a service was to be removed, nobody was concerned but those that depended on it. -/
structure Confined (s₀ : System) (a : Name) (s : System) : Prop where
  requests : ∀ r ∈ s.container.inbox, (∃ k, r = .remove a k) ∨
    ∃ m reached value, r = .report m reached value ∧ s₀.container.graph.Above a m
  nodes : ∀ {m : Name} {n' : Node}, s.container.graph.nodes[m]? = some n' →
    ∃ n, s₀.container.graph.nodes[m]? = some n ∧ n'.inbox = n.inbox ∧
      n'.dependencies = n.dependencies
  others : ∀ {m : Name} {n : Node}, s₀.container.graph.nodes[m]? = some n →
    ¬s₀.container.graph.Above a m → ∃ n', s.container.graph.nodes[m]? = some n' ∧
      n'.state = n.state ∧ n'.stopping = false
  controllers : ∀ {i : Nat} {c' : Controller}, s.controllers[i]? = some c' →
    ∃ c : Controller, s₀.controllers[i]? = some c ∧ c'.plan = c.plan ∧
      (¬s₀.Within a i → c'.state = c.state ∧ c'.callback = none ∧ c'.signals = [])
  owners : ∀ {k : Nat} {t : Task}, s.tasks[k]? = some t → t.watched = true → s₀.Within a t.owner

theorem Confined.calm (h : s.Calm s') (hc : Confined s₀ a s) : Confined s₀ a s' := by
  refine ⟨h.container ▸ hc.requests, h.container ▸ hc.nodes, h.container ▸ hc.others,
    fun {i} {c'} hc' => ?_, fun {k} {t'} ht' hw => ?_⟩
  · obtain ⟨b, hold, hn⟩ := h.exists_controller hc'
    obtain ⟨c, hc₀, hplan, hstill⟩ := hc.controllers hold
    rcases hn with rfl | rfl
    · exact ⟨c, hc₀, hplan, hstill⟩
    · refine ⟨c, hc₀, hplan, fun hno => ?_⟩
      obtain ⟨hst, hcallback, hsignals⟩ := hstill hno
      refine ⟨hst, ?_, (Controller.alarm_signals _).trans hsignals⟩
      simp [Controller.alarm, hcallback]
  · obtain ⟨t, ht, hf⟩ := h.exists_task ht'
    exact hf.owner ▸ hc.owners ht (hf.watched.resolve_right (by simp [hw]) ▸ hw)

theorem Confined.joins (hc : Confined s₀ a s) {t : Task} {outcome : Except Failure Unit} {id : Nat}
    (h : s.Joins t outcome id s') : Confined s₀ a s' := by
  refine ⟨h.container ▸ hc.requests, h.container ▸ hc.nodes, h.container ▸ hc.others,
    fun {i} {c'} hc' => ?_, fun {k} {t'} ht' hw => ?_⟩
  · rw [h.controllers] at hc'
    obtain ⟨c, hold, rfl⟩ := Option.map_eq_some_iff.mp hc'
    obtain ⟨c₀, hc₀, hplan, hstill⟩ := hc.controllers hold
    refine ⟨c₀, hc₀, (c.told_plan _).trans hplan, fun hno => ?_⟩
    have hne : t.owner ≠ i := fun he => hno (he ▸ hc.owners h.task h.watched)
    have hnone : Trial.messagesTo i [⟨t.owner, .lifecycle (t.event outcome)⟩] = [] := by
      simp [Trial.messagesTo, hne]
    rw [hnone, c.told_nil]
    exact hstill hno
  · exact hc.owners (h.task_of_watched ht' hw) hw

theorem Confined.turn (hc : Confined s₀ a s) {id : Nat} {c : Controller} {t : Turn}
    (hold : s.controllers[id]? = some c) (hrequests : t.requests = [])
    (hreported : ∀ r, t.reported = some r →
      ∃ m reached value, r = .report m reached value ∧ s₀.container.graph.Above a m)
    (hplan : t.controller.plan = c.plan)
    (hstill : ¬s₀.Within a id → t.controller.state = c.state ∧ t.controller.callback = none ∧
      t.controller.signals = [])
    (hdeferred : t.deferred.isSome = true → s₀.Within a id) : Confined s₀ a (s.applyTurn id t) := by
  have hid : id < s.controllers.length := (List.getElem?_eq_some_iff.mp hold).1
  have ha := applies_applyTurn (t := t) hid
  refine ⟨fun r hr => ?_, ?_, ?_, fun {i} {c'} hc' => ?_, fun {k} {task} htask hw => ?_⟩
  · rw [ha.container, hrequests, List.nil_append, Container.sent] at hr
    split at hr
    · rcases List.mem_append.mp hr with hr | hr
      · exact hc.requests r hr
      · exact .inr (hreported r (by simpa using hr))
    · exact hc.requests r hr
  · rw [ha.container, sent_graph]
    exact hc.nodes
  · rw [ha.container, sent_graph]
    exact hc.others
  · rcases ha.cases_controller hc' with ⟨rfl, rfl⟩ | ⟨_, hc'⟩
    · obtain ⟨c₀, hc₀, hsame, hrest⟩ := hc.controllers hold
      refine ⟨c₀, hc₀, (t.final_plan _).trans (hplan.trans hsame), fun hno => ?_⟩
      obtain ⟨hst, hcallback, hsignals⟩ := hstill hno
      refine ⟨(t.final_state _).trans (hst.trans (hrest hno).1),
        (t.final_callback _).trans hcallback, ?_⟩
      rw [Controller.signals, Turn.final_inbox]
      split
      · rfl
      · exact hsignals
    · exact hc.controllers hc'
  · rcases ha.cases_task htask with ⟨p, work, hd, rfl⟩ | ⟨task', htask', rfl | rfl⟩
    · exact hdeferred (by simp [hd])
    · exact hc.owners htask' hw
    · exact hc.owners (t := task') htask' hw

/-- Whoever is within is named so. -/
theorem Orderly.above_of_within (h : s₀.Orderly) {i : Nat} {c : Controller}
    (hw : s₀.Within a i) (hc : s₀.controllers[i]? = some c) :
    s₀.container.graph.Above a c.plan.name := by
  obtain ⟨m, hm, n, hn, rfl⟩ := hw
  obtain ⟨c', hc', hl⟩ := h.consistent.linked hn
  obtain rfl := Option.some.inj (hc.symm.trans hc')
  rwa [hl.name]

theorem Orderly.not_within (h : s₀.Orderly) {m : Name} {n : Node}
    (hn : s₀.container.graph.nodes[m]? = some n) (hm : ¬s₀.container.graph.Above a m) :
    ¬s₀.Within a n.inbox := by
  rintro ⟨m', hm', n', hn', hi⟩
  exact hm (h.consistent.ordered.coherent.inboxes hn' hn hi ▸ hm')

/-- Whoever is not above the service is still there. -/
theorem Confined.spares (hc : Confined s₀ a s) {m : Name} {n : Node}
    (hn : s₀.container.graph.nodes[m]? = some n) (hm : ¬s₀.container.graph.Above a m) :
    ∃ n', s.container.graph.nodes[m]? = some n' ∧ n'.inbox = n.inbox ∧ n'.state = n.state := by
  obtain ⟨n', hn', hstate, _⟩ := hc.others hn hm
  obtain ⟨n₀, hn₀, hi, _⟩ := hc.nodes hn'
  obtain rfl := Option.some.inj (hn.symm.trans hn₀)
  exact ⟨n', hn', hi, hstate⟩

theorem Confined.take (hc : Confined s₀ a s) (h₀ : s₀.Orderly) {id : Nat} {c : Controller}
    (hold : s.controllers[id]? = some c) (hcan : c.canTake = true)
    (hrequests : (c.take id s.world).requests = []) :
    Confined s₀ a (s.applyTurn id (c.take id s.world)) := by
  obtain ⟨c₀, hc₀, hsame, hstill⟩ := hc.controllers hold
  rcases Controller.take_cases hcan id s.world with ⟨message, rest, hi, _, _, hs⟩ |
    ⟨e, rest, next, hi, _, hm, hmoved⟩
  · refine hc.turn hold hrequests (by simp [hs.reported]) (by rw [hs.controller])
      (fun hno => ?_) (by simp [hs.deferred])
    obtain ⟨_, hcallback, hsignals⟩ := hstill hno
    rw [hs.controller]
    refine ⟨rfl, hcallback, ?_⟩
    rw [c.signals_cons hi] at hsignals
    exact (List.append_eq_nil_iff.mp hsignals).2
  · have hw : s₀.Within a id := by
      by_contra hno
      have hsignals := (hstill hno).2.2
      rw [c.signals_cons hi] at hsignals
      simp [Message.signal?] at hsignals
    refine hc.turn hold hrequests (fun r hr => ?_) hmoved.plan (absurd hw) fun _ => hw
    rw [hmoved.reported] at hr
    split at hr
    · cases hr
    · exact ⟨_, _, _, (Option.some.inj hr).symm, hsame ▸ h₀.above_of_within hw hc₀⟩

theorem Confined.resume (hc : Confined s₀ a s) (h₀ : s₀.Orderly) {id : Nat} {c : Controller}
    {callback : Callback} {answer : Option (Awaited × Except Error Answer)}
    (hold : s.controllers[id]? = some c) (hwake : c.wakeUp? s.world = some (callback, answer))
    (hrequests : (c.resume id s.world).requests = []) :
    Confined s₀ a (s.applyTurn id (c.resume id s.world)) := by
  have hcallback := Controller.callback_of_wakeUp? hwake
  have hresumed := Controller.resume_resumed hwake id
  obtain ⟨c₀, hc₀, hsame, hstill⟩ := hc.controllers hold
  have hw : s₀.Within a id := by
    by_contra hno
    simp [(hstill hno).2.1] at hcallback
  refine hc.turn hold hrequests (fun r hr => ?_) hresumed.alike.plan (absurd hw) fun _ => hw
  rw [hresumed.reported] at hr
  split at hr
  · cases hr
  · exact ⟨_, _, _, (Option.some.inj hr).symm, hsame ▸ h₀.above_of_within hw hc₀⟩

/-- The container takes a request by which one service begins to stop, or goes on to. -/
structure StopsOne (s₀ : System) (a : Name) (s : System) (rest : List Request) (step : TrialStep)
    (b : Name) : Prop where
  sound : s.trial.Sound
  stops : step.Stops b
  above : s₀.container.graph.Above a b
  inbox : s.receive.container.inbox = rest
  tasks : s.receive.tasks = s.tasks
  graph : s.receive.container.graph = (s.trial.next step).graph
  hears : Hears s.controllers (s.trial.sends step) s.receive.controllers

/-- The next request asks a service to stop, or tells that it does. -/
def AsksToStop (s : System) : Prop :=
  ∀ {rest : List Request} {m : Name} {reached : State} {value : Option Value},
    s.container.inbox = .report m reached value :: rest → reached.Leaving

theorem Confined.stopsOne (hc : Confined s₀ a s) (hst : s.container.stage = .opened)
    (ho : s.Orderly) (hstops : s.AsksToStop) {r : Request} {rest : List Request}
    (hi : s.container.inbox = r :: rest) :
    ∃ step b, StopsOne s₀ a s rest step b ∧ ∀ k, r = .remove a k → b = a := by
  have hr : r ∈ s.container.inbox := hi ▸ List.mem_cons_self ..
  obtain ⟨step, b, hsteps, hb, habove, hlaunch, hclose, hname⟩ : ∃ step b,
      r.steps s.container = [step] ∧ step.Stops b ∧ s₀.container.graph.Above a b ∧
        s.launches r = [] ∧ (∀ k, r ≠ .close k) ∧ ∀ k, r = .remove a k → b = a := by
    rcases hc.requests r hr with ⟨k, rfl⟩ | ⟨m, reached, value, rfl, hm⟩
    · exact ⟨_, a, rfl, rfl, .self, rfl, by simp, fun _ _ => rfl⟩
    · exact ⟨_, m, rfl, ⟨rfl, hstops hi⟩, hm, rfl, by simp, by simp⟩
  have hopen := staysOpen_receive hst hi hclose
  obtain ⟨hmirrors, hhears⟩ := (mirrors_trial s).receive hi
  rw [hsteps] at hmirrors hhears
  rw [hlaunch, List.append_nil, Trial.trace, Trial.trace, List.append_nil] at hhears
  exact ⟨step, b, ⟨ho.sound (mirrors_trial s), hb, habove, hopen.inbox, hopen.tasks,
    hmirrors.graph.symm, hhears⟩, hname⟩

theorem Confined.receive (hc : Confined s₀ a s) {r : Request} {rest : List Request}
    (hi : s.container.inbox = r :: rest) {step : TrialStep} {b : Name}
    (h : StopsOne s₀ a s rest step b) : Confined s₀ a s.receive := by
  refine ⟨fun x hx => ?_, fun {m} {n'} hn' => ?_, fun {m} {n} hn hno => ?_,
    fun {i} {c'} hc' => ?_, fun {k} {t} htask hw => ?_⟩
  · rw [h.inbox] at hx
    exact hc.requests x (hi ▸ List.mem_cons_of_mem _ hx)
  · rw [h.graph] at hn'
    obtain ⟨n, hn, hinbox, hdeps, _⟩ := h.sound.exists_of_stops h.stops hn'
    obtain ⟨n₀, hn₀, hinbox₀, hdeps₀⟩ := hc.nodes hn
    exact ⟨n₀, hn₀, hinbox.trans hinbox₀, hdeps.trans hdeps₀⟩
  · obtain ⟨k, hk, hst, hs⟩ := hc.others hn hno
    have hnot : ¬step.Stops m := fun hm => hno (hm.eq h.stops ▸ h.above)
    obtain ⟨k', hk', hst', hs'⟩ := h.sound.spares h.stops hnot hk
    exact ⟨k', h.graph ▸ hk', hst'.trans hst, hs'.trans hs⟩
  · rw [h.hears i] at hc'
    obtain ⟨c, hold, rfl⟩ := Option.map_eq_some_iff.mp hc'
    obtain ⟨c₀, hc₀, hplan, hstill⟩ := hc.controllers hold
    refine ⟨c₀, hc₀, (c.told_plan _).trans hplan, fun hno => ?_⟩
    obtain ⟨hst, hcallback, hsignals⟩ := hstill hno
    refine ⟨(c.told_state _).trans hst, (c.told_callback _).trans hcallback, ?_⟩
    have hnone : signalsTo i (s.trial.sends step) = [] := by
      refine List.eq_nil_iff_forall_not_mem.mpr fun x hx => hno ?_
      rcases h.sound.hearer h.stops hx with ⟨n, hn, rfl⟩ | ⟨m, n, hn, rfl, hd⟩ |
        ⟨m, n, hn, rfl, hs⟩ <;> obtain ⟨n₀, hn₀, hinbox, hdeps⟩ := hc.nodes hn
      · exact ⟨b, h.above, n₀, hn₀, hinbox.symm⟩
      · exact ⟨m, .dependent h.above hn₀ (hdeps ▸ hd), n₀, hn₀, hinbox.symm⟩
      · by_contra hout
        have hm : ¬s₀.container.graph.Above a m := fun hm => hout ⟨m, hm, n₀, hn₀, hinbox.symm⟩
        obtain ⟨k, hk, _, hfalse⟩ := hc.others hn₀ hm
        rw [← Option.some.inj (hn.symm.trans hk), hs] at hfalse
        cases hfalse
    rw [c.told_signals, hsignals, List.nil_append]
    split
    · rfl
    · exact hnone
  · rw [h.tasks] at htask
    exact hc.owners htask hw

theorem Phased.asksToStop (hp : s.Phased .stop) : s.AsksToStop :=
  fun {_ m reached value} hi => hp.requests (.report m reached value) (by simp [hi])

/-- Whatever happens by itself, nobody else is concerned. -/
theorem Confined.step (hc : Confined s₀ a s) (h₀ : s₀.Orderly) (hp : s.Phased .stop)
    (ho : s.Orderly) {x : Stimulus} (hs : Step s x s') (hx : x.isInternal = true) :
    Confined s₀ a s' := by
  cases hs with
  | calm hcalm => exact hc.calm hcalm
  | opened | asked => cases hx
  | received r rest hserving hi =>
      obtain ⟨_, _, hstop, _⟩ := hc.stopsOne hp.opened ho hp.asksToStop hi
      exact hc.receive hi hstop
  | finished hst => simp [hp.opened] at hst
  | took id c hold hcan =>
      have htame := hp.controllers hold (Controller.ended_of_canTake hcan)
      exact hc.take h₀ hold hcan (htame.take hcan id (hp.accepts ho hold)).1.requests
  | resumed id c callback answer hold hwake =>
      exact hc.resume h₀ hold hwake (hp.resume ho hold hwake).1.requests
  | joined id t outcome hj => exact hc.joins hj

/-- Whoever has no signal before it carries out nothing. -/
theorem effects_of_silent {c : Controller} (h : c.signals = []) : c.effects = [] := by
  unfold Controller.effects
  split
  · next hi =>
      rw [c.signals_cons hi] at h
      simp [Message.signal?] at h
  · rfl

/-- Whoever carries out anything is to be taken along. -/
theorem Confined.within_of_effects (hc : Confined s₀ a s) {id : Nat} {c : Controller}
    (hold : s.controllers[id]? = some c) {e : Effect} (he : e ∈ c.effects) : s₀.Within a id := by
  by_contra hno
  obtain ⟨_, _, _, hstill⟩ := hc.controllers hold
  simp [effects_of_silent (hstill hno).2.2] at he

/-! ## Everyone is reached -/

theorem Orderly.doomed_step (h : s.Orderly) {x : Stimulus} (hs : Step s x s') {i : Nat}
    {c c' : Controller} (hc : s.controllers[i]? = some c) (hd : c.Doomed)
    (hc' : s'.controllers[i]? = some c') : c'.Doomed := by
  have hsame : s'.controllers = s.controllers → c'.Doomed := by
    intro he
    rw [he, hc] at hc'
    exact Option.some.inj hc' ▸ hd
  have hturn : ∀ {id : Nat} {b : Controller} {t : Turn}, s.controllers[id]? = some b →
      Turned id b s.tasks t → (s.applyTurn id t).controllers[i]? = some c' → c'.Doomed := by
    intro id b t hb ht hafter
    have hid : id < s.controllers.length := (List.getElem?_eq_some_iff.mp hb).1
    rcases (applies_applyTurn hid).cases_controller hafter with ⟨rfl, rfl⟩ | ⟨_, hafter⟩
    · obtain rfl := Option.some.inj (hb.symm.trans hc)
      exact ht.doomed hd
    · rw [hc] at hafter
      exact Option.some.inj hafter ▸ hd
  cases hs with
  | calm hcalm =>
      obtain ⟨b, hb, hn⟩ := hcalm.exists_controller hc'
      obtain rfl := Option.some.inj (hb.symm.trans hc)
      rcases hn with rfl | rfl
      · exact hd
      · exact hd.congr rfl b.alarm_signals
  | opened origin hst hu hw => exact hsame hu.controllers
  | asked origin o requests w ha =>
      exact hsame (sends_sendAll { s with world := w } requests).controllers
  | received r rest hserving hi =>
      have hlt : i < s.controllers.length := (List.getElem?_eq_some_iff.mp hc).1
      rw [((mirrors_trial s).receive hi).2 i, List.getElem?_append_left hlt, hc]
        at hc'
      exact Option.some.inj hc' ▸ hd.told _
  | finished hst hq => exact hsame (unmoved_finish s).controllers
  | took id b hb hcan => exact hturn hb (turned_take (h.attended hb) hcan s.world) hc'
  | resumed id b callback answer hb hwake =>
      exact hturn hb (turned_resume (h.attended hb) hwake) hc'
  | joined id t outcome hj =>
      rw [hj.controllers, hc] at hc'
      exact Option.some.inj hc' ▸ hd.told _

/-- Whoever depends on a service that is gone, or on its way out, is on its way out as well. -/
def Dooms (s₀ s : System) : Prop :=
  ∀ ⦃m d : Name⦄ ⦃n : Node⦄ ⦃c : Controller⦄, s.container.graph.nodes[m]? = some n →
    s.controllers[n.inbox]? = some c → d ∈ n.dependencies →
    (∃ k, s₀.container.graph.nodes[d]? = some k) →
    (∀ k, s.container.graph.nodes[d]? = some k → k.stopping = true) → c.Doomed

theorem Dooms.receive (h : Dooms s₀ s) (ho : s.Orderly) {rest : List Request} {step : TrialStep}
    {b : Name} (hstop : StopsOne s₀ a s rest step b) : Dooms s₀ s.receive := by
  intro m d n' c' hn' hc' hd hthere hleaves
  rw [hstop.graph] at hn' hleaves
  obtain ⟨n, hn, hinbox, hdeps, _⟩ := hstop.sound.exists_of_stops hstop.stops hn'
  rw [hstop.hears, hinbox] at hc'
  obtain ⟨c, hold, rfl⟩ := Option.map_eq_some_iff.mp hc'
  rw [hdeps] at hd
  by_cases hbefore : ∀ k, s.container.graph.nodes[d]? = some k → k.stopping = true
  · exact (h hn hold hd hthere hbefore).told _
  · push Not at hbefore
    obtain ⟨k, hk, hs⟩ := hbefore
    have hs : k.stopping = false := by simpa using hs
    -- the service depended on begins to stop, or is removed at once
    have hstops : step.Stops d := by
      by_cases hr : step.Removes d
      · exact hr.stops
      · obtain ⟨k', hk', hsurvives⟩ := (Trial.stepSpec hstop.sound step).survives hk hr
        exact (hsurvives.stopping.mp (hleaves k' hk')).resolve_left (by simp [hs])
    refine Controller.doomed_told (fun he => ho.endsRemoved hold he) ?_
    rw [messagesTo_signals]
    exact hstop.sound.warned hk hs hstops hn hd

/-- A step in which no request is taken leaves everyone on their way. -/
theorem Dooms.still (h : Dooms s₀ s) (ho : s.Orderly) {x : Stimulus} (hs : Step s x s')
    (hgraph : s'.container.graph = s.container.graph) : Dooms s₀ s' := by
  intro m d n c hn hc' hd hthere hleaves
  rw [hgraph] at hn hleaves
  obtain ⟨c, hold, _⟩ := ho.consistent.linked hn
  exact ho.doomed_step hs hold (h hn hold hd hthere hleaves) hc'

/-- A service is to be removed, or is on its way out, and so is whoever depends on such a one. -/
structure Spreads (s₀ : System) (a : Name) (s : System) : Prop where
  asked : (∃ k, .remove a k ∈ s.container.inbox) ∨
    ∀ n, s.container.graph.nodes[a]? = some n → n.stopping = true
  doomed : Dooms s₀ s

theorem Spreads.receive (h : Spreads s₀ a s) (hc : Confined s₀ a s) (hp : s.Phased .stop)
    (ho : s.Orderly) {r : Request} {rest : List Request} (hi : s.container.inbox = r :: rest) :
    Spreads s₀ a s.receive := by
  obtain ⟨step, b, hstop, hname⟩ := hc.stopsOne hp.opened ho hp.asksToStop hi
  refine ⟨?_, h.doomed.receive ho hstop⟩
  have hstays : (∀ n, s.container.graph.nodes[a]? = some n → n.stopping = true ∨ step.Stops a) →
      ∀ n', s.receive.container.graph.nodes[a]? = some n' → n'.stopping = true := by
    intro hall n' hn'
    rw [hstop.graph] at hn'
    obtain ⟨n, hn, _, _, hs⟩ := hstop.sound.exists_of_stops hstop.stops hn'
    exact hs.mpr (hall n hn)
  rcases h.asked with ⟨k, hk⟩ | hall
  · rw [hi, List.mem_cons] at hk
    rcases hk with rfl | hk
    · exact .inr (hstays fun n hn => .inr (hname k rfl ▸ hstop.stops))
    · exact .inl ⟨k, hstop.inbox ▸ hk⟩
  · exact .inr (hstays fun n hn => .inl (hall n hn))

theorem Spreads.step (h : Spreads s₀ a s) (hc : Confined s₀ a s) (hp : s.Phased .stop)
    (ho : s.Orderly) {x : Stimulus} (hs : Step s x s') : Spreads s₀ a s' := by
  rcases container_cases hs with ⟨out, hcont⟩ | ⟨hst, _⟩ | ⟨r, rest, _, hi, rfl⟩ | ⟨hst, _⟩
  · have hgraph : s'.container.graph = s.container.graph := by rw [hcont, sent_graph]
    refine ⟨?_, h.doomed.still ho hs hgraph⟩
    rw [hgraph]
    refine h.asked.imp_left fun ⟨k, hk⟩ => ⟨k, ?_⟩
    rw [hcont, Container.sent, if_pos hp.isServing]
    exact List.mem_append_left _ hk
  · simp [hp.opened] at hst
  · exact h.receive hc hp ho hi
  · simp [hp.opened] at hst

end System

end ServiceHost
