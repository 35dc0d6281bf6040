import ServiceHost.Proofs.System.Installing
import ServiceHost.Proofs.System.Sinking

/-! # A service is let in that fails to start

A settled container takes the request to install a service which depends on started services only.
The service is registered and given what it depends on at once; from then on it fails to start, and
nobody is concerned but those that depend on it. -/

namespace ServiceHost

open ServiceHost.Graph (Trial)

/-- Whoever is launched and given what it depends on is to start. -/
theorem Controller.fails_launch {plan : Plan} {cells : Cells} {values : List (Name × Value)}
    {f : Failure} (ho : plan.startOutcome? cells values = some (.error f))
    (hcover : ∀ e ∈ plan.dependencies, e ∈ values.map Prod.fst) (ticket : Ticket)
    (updates : List GroupUpdate) :
    ((Controller.launch plan ticket).told
      (updates.map Message.reference ++ [.lifecycle (.dependenciesAvailable values)])).Fails
        f cells := by
  have hsilent : (updates.map Message.reference).filterMap Message.signal? = [] := by
    simp [List.filterMap_map, Function.comp_def, Message.signal?]
  refine .offered values (Controller.told_state _ _) (Controller.told_callback _ _) ?_ ?_
    (by rwa [Controller.told_plan]) (by rwa [Controller.told_plan])
  · simp [Controller.told, Controller.launch]
  · rw [Controller.told_signals, if_neg (by simp [Controller.launch]), List.filterMap_append, hsilent]
    rfl

/-- Slots that are not bound by a service are not created for it. -/
theorem Cells.slot?_createFor_of_not {cells : Cells} {d : Service} {l : Label}
    (h : ¬(d.plan none).Binds l) : (cells.createFor d).slot? l = cells.slot? l := by
  rcases Cells.grows_createFor cells d l with he | ⟨hno, _⟩
  · simp only [Cells.slot?, he]
  · have hnone : cells.slot? l = none := by
      rw [Cells.slot?, hno]
    rw [hnone]
    refine Option.eq_none_iff_forall_ne_some.mpr fun slot hslot => ?_
    rcases Cells.slot?_createFor hslot with hold | ⟨b, hb, rfl, _⟩
    · simp [hnone] at hold
    · exact h ⟨b.dependency, (d.mem_plan_slotsOf none).mpr ⟨b, hb, rfl, rfl⟩⟩

namespace System

variable {s₀ s₁ s s' : System} {d : Service} {f : Failure}

/-- A settled and open container, and a service of a new name that depends on started services only
and, given what they expose, fails to start. -/
structure FailsToStart (s₀ : System) (d : Service) (f : Failure) : Prop where
  settled : s₀.Settled
  opened : s₀.container.stage = .opened
  free : s₀.container.graph.nodes[d.name]? = none
  started : ∀ {e}, d.Needs e → s₀.HasStarted e
  fails : ∀ {values}, s₀.container.graph.available? (d.plan none).dependencies = some values →
    (d.plan none).startOutcome? (s₀.world.cells.createFor d) values = some (.error f)

/-- Whoever has started in a settled system exposes its value. -/
theorem HasStarted.exposes (h₀ : s₀.Orderly) (hs : s₀.Settled) {e : Name} (h : s₀.HasStarted e) :
    s₀.container.graph.exposed? e ≠ none := by
  obtain ⟨n, c, hn, hc, hst⟩ := h
  obtain ⟨c', hc', _, hsame, hstopping, _⟩ := (h₀.steady hs).installed hn
  obtain rfl := Option.some.inj (hc.symm.trans hc')
  have hvalue := h₀.consistent.ordered.exposed hn (hsame.symm.trans hst) hstopping
  rw [Graph.exposed?_eq, hn, Option.bind_some, if_neg (by simp [hstopping])]
  exact Option.isSome_iff_ne_none.mp hvalue

namespace FailsToStart

theorem available (h : FailsToStart s₀ d f) (h₀ : s₀.Orderly) :
    ∃ values, s₀.container.graph.available? (d.plan none).dependencies = some values := by
  refine Option.ne_none_iff_exists'.mp fun hnone => ?_
  obtain ⟨e, he, hno⟩ := Graph.available?_eq_none.mp hnone
  exact (h.started (d.mem_plan_dependencies.mp he)).exposes h₀ h.settled hno

/-- Whoever depends on a service that is not there waits. -/
theorem waits (h : FailsToStart s₀ d f) (h₀ : s₀.Orderly) {m : Name} {n : Node} {c : Controller}
    (hm : s₀.container.graph.Above d.name m) (hn : s₀.container.graph.nodes[m]? = some n)
    (hc : s₀.controllers[n.inbox]? = some c) : c.state = .waiting := by
  have hsteady := h₀.steady h.settled
  induction hm generalizing n c with
  | self => simp [h.free] at hn
  | @dependent e m k he hk hdep ih =>
      obtain rfl := Option.some.inj (hn.symm.trans hk)
      obtain ⟨b, hb, _, _, _, _, hrests⟩ := hsteady.installed hn
      obtain rfl := Option.some.inj (hc.symm.trans hb)
      refine (hrests.resolve_left fun ⟨_, hstarted⟩ => ?_).1
      obtain ⟨c', hc', hl⟩ := h₀.consistent.linked hn
      obtain rfl := Option.some.inj (hc.symm.trans hc')
      obtain ⟨k, b, hk, hb, hst⟩ := hstarted e (hl.dependencies.symm ▸ hdep)
      simp [ih hk hb] at hst

theorem aborts (h : FailsToStart s₀ d f) (h₀ : s₀.Orderly) {j : Nat} {c : Controller}
    (hw : s₀.Within d.name j) (hc : s₀.controllers[j]? = some c) : c.Aborts := by
  obtain ⟨m, hm, n, hn, rfl⟩ := hw
  exact ⟨.inl (h.waits h₀ hm hn hc), h.settled.callbacks c (List.mem_of_getElem? hc),
    by simp [h.settled.signals hc]⟩

end FailsToStart

/-! ## The service is registered -/

/-- The request to install a service is not taken yet, and nothing else is under way. -/
structure Awaits (s₀ : System) (d : Service) (s : System) : Prop where
  container : s.container = { s₀.container with
    inbox := [.install (d.plan none) s₀.world.pledges.length] }
  controllers : s.controllers = s₀.controllers
  tasks : ∀ {k : Nat} {t : Task}, s.tasks[k]? = some t → t.watched = false
  cells : s.world.cells = s₀.world.cells.createFor d

/-- A service was registered that has all it depends on, and nothing else has happened. -/
structure Enters (s₀ : System) (d : Service) (f : Failure) (s₁ : System) : Prop where
  orderly : s₁.Orderly
  opened : s₁.container.stage = .opened
  inbox : s₁.container.inbox = []
  node : ∃ n, s₁.container.graph.nodes[d.name]? = some n ∧ n.inbox = s₀.controllers.length ∧
    n.stopping = false
  nodes : ∀ {m : Name}, m ≠ d.name →
    s₁.container.graph.nodes[m]? = s₀.container.graph.nodes[m]?
  controller : ∃ c, s₁.controllers[s₀.controllers.length]? = some c ∧ c.plan = d.plan none ∧
    c.Fails f s₁.world.cells
  others : ∀ {j : Nat}, j ≠ s₀.controllers.length → s₁.controllers[j]? = s₀.controllers[j]?
  tasks : ∀ {k : Nat} {t : Task}, s₁.tasks[k]? = some t → t.watched = false
  cells : s₁.world.cells = s₀.world.cells.createFor d

theorem FailsToStart.awaits (h : FailsToStart s₀ d f) (origin : Origin) :
    Awaits s₀ d (s₀.apply (.request origin (.install d))) := by
  have hr := asksFor_apply h.opened origin d
  refine ⟨?_, hr.controllers, fun {k} {t} ht => ?_, hr.cells⟩
  · rw [hr.container, h.settled.requests, List.nil_append]
  · rw [hr.tasks] at ht
    exact h.settled.completions t (List.mem_of_getElem? ht)

theorem Awaits.calm (h : Awaits s₀ d s) (hs : s₀.Settled) (hcalm : s.Calm s') : Awaits s₀ d s' := by
  refine ⟨hcalm.container.trans h.container, ?_, fun {k} {t'} ht' => ?_,
    hcalm.cells.trans h.cells⟩
  · refine List.ext_getElem? fun i => ?_
    have hrel := hcalm.controllers i
    rw [h.controllers] at hrel
    generalize hc : s₀.controllers[i]? = o, hc' : s'.controllers[i]? = o' at hrel
    cases hrel with
    | none => rfl
    | some hn =>
        rcases hn with rfl | rfl
        · rfl
        · rw [Controller.alarm_of_idle (hs.callbacks _ (List.mem_of_getElem? hc))]
  · obtain ⟨t, ht, hf⟩ := hcalm.exists_task ht'
    exact hf.watched.elim (·.trans (h.tasks ht)) And.right

/-- A service of a new name is registered. -/
theorem operates_process {plan : Plan} (hst : s.container.stage = .opened)
    (hfree : s.container.graph.contains plan.name = false) (ticket : Ticket) :
    Operates { s with controllers := s.controllers ++ [Controller.launch plan ticket] }
      (s.container.graph.register plan.registration s.controllers.length)
      (s.process (.install plan ticket)) := by
  show Operates _ _ (s.install plan ticket)
  rw [System.install, if_neg (by simp [hst]), if_neg (by simp [hfree])]
  exact operates_install s plan ticket

theorem operates_receive {plan : Plan} {ticket : Ticket} {rest : List Request}
    (hst : s.container.stage = .opened) (hi : s.container.inbox = .install plan ticket :: rest)
    (hfree : s.container.graph.contains plan.name = false) :
    Operates { s with
        container := { s.container with inbox := rest }
        controllers := s.controllers ++ [Controller.launch plan ticket] }
      (s.container.graph.register plan.registration s.controllers.length) s.receive := by
  have ho := operates_process
    (s := { s with container := { s.container with inbox := rest } }) hst hfree ticket
  have hstage := congrArg Container.stage ho.container
  unfold System.receive
  rw [hi]
  dsimp only
  rwa [if_neg fun hclosed => by cases hst.symm.trans (hstage.symm.trans hclosed)]

/-- The service is registered, and given what it depends on. -/
theorem Awaits.enters (h : Awaits s₀ d s) (hf : FailsToStart s₀ d f) (h₀ : s₀.Orderly)
    (ho : s.receive.Orderly) : Enters s₀ d f s.receive := by
  let r : Registration := (d.plan none).registration
  have hname : r.name = d.name := d.plan_name none
  have hnone : s₀.container.graph.nodes[r.name]? = none := hname.symm ▸ hf.free
  obtain ⟨values, hvalues⟩ := hf.available h₀
  obtain ⟨updates, hsent⟩ := Graph.register_resolved hnone s₀.controllers.length hvalues
  have hoperates := operates_receive (s := s) (by rw [h.container]; exact hf.opened)
    (congrArg Container.inbox h.container)
    (by simp [h.container, Graph.contains_eq, hf.free])
  rw [h.container, h.controllers] at hoperates
  have hgraph : s.receive.container.graph =
      (s₀.container.graph.register r s₀.controllers.length).1 := by rw [hoperates.container]
  have hcells : s.receive.world.cells = s₀.world.cells.createFor d := by
    rw [hoperates.world]
    exact h.cells
  have hcontroller : ∀ j : Nat, s.receive.controllers[j]? =
      (s₀.controllers ++ [Controller.launch (d.plan none) s₀.world.pledges.length])[j]?.map
        (·.told (if s₀.controllers.length = j then updates.map Message.reference ++
          [.lifecycle (.dependenciesAvailable values)] else [])) := by
    intro j
    rw [← Trial.messagesTo_map, ← hsent]
    exact hoperates.controllers j
  have hself : s.receive.container.graph.nodes[d.name]? =
      some ((s₀.container.graph.enter r s₀.controllers.length).grant
        (r.node s₀.controllers.length)) := by
    rw [hgraph, ← hname, Graph.nodes_register_self]
  refine ⟨ho, ?_, ?_, ⟨_, hself, rfl, rfl⟩, fun {m} hm => ?_, ?_, fun {j} hj => ?_, fun {k} {t} ht => ?_, hcells⟩
  · rw [hoperates.container]
    exact hf.opened
  · rw [hoperates.container]
  · rw [hgraph, Graph.nodes_register_of_ne _ fun he => hm (he.symm.trans hname)]
  · rw [hcontroller, List.getElem?_concat_length, if_pos rfl]
    refine ⟨_, rfl, Controller.told_plan _ _, Controller.fails_launch ?_ (fun e he => ?_) _ _⟩
    · rw [hcells]
      exact hf.fails hvalues
    · rw [Graph.map_fst_of_available? hvalues]
      exact Std.ExtTreeSet.mem_toList.mpr he
  · rw [hcontroller, if_neg (Ne.symm hj)]
    simp only [Controller.told_nil, Option.map_id']
    rcases Nat.lt_or_gt_of_ne hj with hlt | hgt
    · rw [List.getElem?_append_left hlt]
    · rw [List.getElem?_eq_none (by simp; omega), List.getElem?_eq_none (by omega)]
  · rw [hoperates.tasks] at ht
    exact h.tasks ht

/-! ## Who is concerned -/

namespace Enters

/-- The same services are above it as before. -/
theorem above_iff (h : Enters s₀ d f s₁) (hfree : s₀.container.graph.nodes[d.name]? = none)
    {m : Name} : s₁.container.graph.Above d.name m ↔ s₀.container.graph.Above d.name m := by
  constructor
  · intro hm
    induction hm with
    | self => exact .self
    | @dependent e m n _ hn he ih =>
        by_cases hm : m = d.name
        · subst hm
          exact .self
        · exact .dependent ih (h.nodes hm ▸ hn) he
  · intro hm
    induction hm with
    | self => exact .self
    | @dependent e m n _ hn he ih =>
        refine .dependent ih ((h.nodes ?_).trans hn) he
        rintro rfl
        simp [hfree] at hn

theorem within_iff (h : Enters s₀ d f s₁) (hfree : s₀.container.graph.nodes[d.name]? = none)
    {j : Nat} (hj : j ≠ s₀.controllers.length) :
    s₁.Within d.name j ↔ s₀.Within d.name j := by
  refine exists_congr fun m => and_congr (h.above_iff hfree) ?_
  by_cases hm : m = d.name
  · subst hm
    obtain ⟨n, hn, hi, _⟩ := h.node
    refine iff_of_false ?_ ?_
    · rintro ⟨k, hk, rfl⟩
      obtain rfl := Option.some.inj (hn.symm.trans hk)
      exact hj hi
    · rintro ⟨k, hk, _⟩
      simp [hfree] at hk
  · exact exists_congr fun n => by rw [h.nodes hm]

/-- The service itself is concerned. -/
theorem within (h : Enters s₀ d f s₁) : s₁.Within d.name s₀.controllers.length := by
  obtain ⟨n, hn, hi, _⟩ := h.node
  exact ⟨d.name, .self, n, hn, hi⟩

/-- Nobody is on the way out. -/
theorem stays (h : Enters s₀ d f s₁) (h₀ : s₀.Orderly) (hs : s₀.Settled) {m : Name} {n : Node}
    (hn : s₁.container.graph.nodes[m]? = some n) : n.stopping = false := by
  by_cases hm : m = d.name
  · subst hm
    obtain ⟨k, hk, _, hstopping⟩ := h.node
    obtain rfl := Option.some.inj (hk.symm.trans hn)
    exact hstopping
  · obtain ⟨_, _, _, _, hstopping, _⟩ := (h₀.steady hs).installed (h.nodes hm ▸ hn)
    exact hstopping

theorem sinks (h : Enters s₀ d f s₁) (hf : FailsToStart s₀ d f) (h₀ : s₀.Orderly) :
    Sinks s₁ d s₀.controllers.length f s₁ := by
  have hsignals : ∀ {j : Nat} {c : Controller}, s₁.controllers[j]? = some c →
      j ≠ s₀.controllers.length → c.signals = [] :=
    fun hc hj => hf.settled.signals (h.others hj ▸ hc)
  have hidle : ∀ {j : Nat} {c : Controller}, s₁.controllers[j]? = some c →
      j ≠ s₀.controllers.length → c.callback = none :=
    fun hc hj => hf.settled.callbacks _ (List.mem_of_getElem? (h.others hj ▸ hc))
  refine ⟨h.opened, ⟨by simp [h.inbox], fun hn => ⟨_, hn, rfl, rfl⟩,
    fun hn _ => ⟨_, hn, rfl, h.stays h₀ hf.settled hn⟩, fun {j} {c} hc => ⟨c, hc, rfl, fun hw => ?_⟩,
    fun ht hw => ?_⟩, ?_, by simp [h.inbox], fun {c} hc => ?_, fun {j} {c} hc hj hw => ?_,
    fun ht hw => ?_, fun hc hp => ⟨by simp [h.inbox], fun hb hj => hsignals hb hj⟩, .refl _ _⟩
  · have hj : j ≠ s₀.controllers.length := by
      rintro rfl
      exact hw h.within
    exact ⟨rfl, hidle hc hj, hsignals hc hj⟩
  · simp [h.tasks ht] at hw
  · intro m e n c hn hc he hthere hleaves
    obtain ⟨k, hk⟩ := hthere
    exact absurd (hleaves k hk) (by simp [h.stays h₀ hf.settled hk])
  · obtain ⟨c', hc', hplan, hfails⟩ := h.controller
    obtain rfl := Option.some.inj (hc.symm.trans hc')
    exact ⟨hplan, hfails⟩
  · exact hf.aborts h₀ ((h.within_iff hf.free hj).mp hw) (h.others hj ▸ hc)
  · simp [h.tasks ht] at hw

end Enters

/-- A service that fails to start is not registered yet, or nobody was concerned since but those
that depend on it. -/
inductive Fails (s₀ : System) (d : Service) (f : Failure) (s : System) : Prop
  | awaits (h : Awaits s₀ d s)
  | sinks (s₁ : System) (h₁ : Enters s₀ d f s₁)
    (hlength : s₀.controllers.length < s.controllers.length)
    (h : Sinks s₁ d s₀.controllers.length f s)

namespace Fails

theorem step (h : s₀.Fails d f s) (hf : FailsToStart s₀ d f) (h₀ : s₀.Orderly) (ho : s.Orderly)
    {x : Stimulus} (hs : Step s x s') (hx : x.isInternal = true) : s₀.Fails d f s' := by
  cases h with
  | sinks s₁ h₁ hlength h =>
      exact .sinks s₁ h₁ (Nat.lt_of_lt_of_le hlength (ho.supplying hs).length)
        (h.step h₁.orderly ho hs hx)
  | awaits h =>
      have ho' := ho.step hs
      have hopened : s.container.stage = .opened := by
        rw [h.container]
        exact hf.opened
      -- nobody but the container can act
      have hidle : ∀ {j : Nat} {c : Controller}, s.controllers[j]? = some c →
          c.inbox = [] ∧ c.callback = none := by
        intro j c hc
        rw [h.controllers] at hc
        have hmem := List.mem_of_getElem? hc
        exact ⟨hf.settled.messages c hmem, hf.settled.callbacks c hmem⟩
      cases hs with
      | calm hcalm => exact .awaits (h.calm hf.settled hcalm)
      | opened | asked => cases hx
      | received r rest hserving hi =>
          have henters := h.enters hf h₀ ho'
          obtain ⟨c, hc, _⟩ := henters.controller
          exact .sinks s.receive henters (List.getElem?_eq_some_iff.mp hc).1 (henters.sinks hf h₀)
      | finished hst => simp [hopened] at hst
      | took id c hc hcan => simp [Controller.canTake, (hidle hc).1] at hcan
      | resumed id c callback answer hc hwake =>
          simp [Controller.wakeUp?, (hidle hc).2] at hwake
      | joined id t outcome hj => exact absurd hj.watched (by simp [h.tasks hj.task])

/-- Other services are as they were, unless they are above the one that fails to start. -/
theorem other (h : s₀.Fails d f s) (hf : FailsToStart s₀ d f) (h₀ : s₀.Orderly) {j : Nat}
    {c : Controller} (hc : s.controllers[j]? = some c) (hj : j ≠ s₀.controllers.length) :
    ∃ c₀, s₀.controllers[j]? = some c₀ ∧ c.plan = c₀.plan ∧
      (s₀.Within d.name j → c.Aborts) ∧
      (¬s₀.Within d.name j → c.state = c₀.state ∧ c.callback = none ∧ c.signals = []) := by
  cases h with
  | awaits h =>
      rw [h.controllers] at hc
      exact ⟨c, hc, rfl, fun hw => hf.aborts h₀ hw hc, fun _ =>
        ⟨rfl, hf.settled.callbacks c (List.mem_of_getElem? hc), hf.settled.signals hc⟩⟩
  | sinks s₁ h₁ _ h =>
      have hwithin := h₁.within_iff hf.free hj
      obtain ⟨c₀, hc₀, hplan, hstill⟩ := h.confined.controllers hc
      exact ⟨c₀, h₁.others hj ▸ hc₀, hplan, fun hw => h.others hc hj (hwithin.mpr hw),
        fun hw => hstill fun hw' => hw (hwithin.mp hw')⟩

/-- The service that fails to start is on its way. -/
theorem self (h : s₀.Fails d f s) {c : Controller}
    (hc : s.controllers[s₀.controllers.length]? = some c) :
    c.plan = d.plan none ∧ c.Fails f s.world.cells := by
  cases h with
  | awaits h => simp [h.controllers] at hc
  | sinks s₁ h₁ _ h => exact h.failing hc

theorem not_starting (h : s₀.Fails d f s) (hf : FailsToStart s₀ d f) (h₀ : s₀.Orderly) {j : Nat}
    {c : Controller} (hc : s.controllers[j]? = some c) (hj : j ≠ s₀.controllers.length) :
    c.state.phase ≠ 1 := by
  obtain ⟨c₀, hc₀, _, haborts, hstill⟩ := h.other hf h₀ hc hj
  by_cases hw : s₀.Within d.name j
  · rcases (haborts hw).state with hs | hs <;> simp [hs, State.phase]
  · rw [(hstill hw).1]
    exact hf.settled.not_in h₀ hc₀ .start

/-- No callback waits for an answer. -/
theorem unasking (h : s₀.Fails d f s) (hf : FailsToStart s₀ d f) (h₀ : s₀.Orderly) {j : Nat}
    {c : Controller} (hc : s.controllers[j]? = some c) {callback : Callback}
    (hcallback : c.callback = some callback) (ticket : Ticket) (awaited : Awaited) :
    callback.wait ≠ .answer ticket awaited := by
  by_cases hj : j = s₀.controllers.length
  · subst hj
    obtain ⟨_, hfails⟩ := h.self hc
    cases hfails with
    | starting _ hheads => exact (hheads callback hcallback).unasking ticket awaited
    | offered _ _ hidle | stopping _ hidle | removed _ hidle => simp [hidle] at hcallback
  · obtain ⟨c₀, _, _, haborts, hstill⟩ := h.other hf h₀ hc hj
    by_cases hw : s₀.Within d.name j
    · simp [(haborts hw).idle] at hcallback
    · simp [(hstill hw).2.1] at hcallback

/-- Once nothing is under way any more, the service was registered. -/
theorem entered (h : s₀.Fails d f s) (hs : s.Settled) : ∃ s₁, Enters s₀ d f s₁ ∧
    s₀.controllers.length < s.controllers.length ∧ Sinks s₁ d s₀.controllers.length f s := by
  cases h with
  | awaits h =>
      have hempty := hs.requests
      simp [h.container] at hempty
  | sinks s₁ h₁ hlength h => exact ⟨s₁, h₁, hlength, h⟩

end Fails

end System

end ServiceHost
