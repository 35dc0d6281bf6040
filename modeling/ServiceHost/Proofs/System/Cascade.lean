import ServiceHost.Proofs.System.Beginnings
import ServiceHost.Proofs.System.DependencyOrder
import ServiceHost.Proofs.System.Removal

/-! # What a removal leaves

Once nothing is under way any more, a removed service and whoever depended on it are gone, each of
them stopped once if it had started, and everything else is as it was. -/

namespace ServiceHost

/-- What was carried out for a service, from a state on, without starting it. -/
structure State.Halts (first state : State) (l : List Effect) : Prop where
  unstarted : .injectAndStart ∉ l
  started : first = .started → 2 ≤ state.phase ∧
    l.countP Effect.isStop = if state.phase < 4 then 0 else 1
  waiting : first = .waiting → (state = .waiting ∨ state = .removed) ∧ l.countP Effect.isStop = 0

theorem State.Halts.refl (state : State) : state.Halts state [] := by
  refine ⟨by simp, ?_, ?_⟩ <;> rintro rfl <;> simp [State.phase]

theorem State.Halts.advance {first state next : State} {l effects : List Effect}
    (h : first.Halts state l) (ha : state.Advances next effects) (hnext : next.phase ≠ 1) :
    first.Halts next (l ++ effects) := by
  cases ha with
  | stays => exact (List.append_nil l).symm ▸ h
  | moves hm =>
      obtain ⟨hu, hs, hw⟩ := h
      cases hm <;> refine ⟨?_, fun hf => ?_, fun hf => ?_⟩ <;>
        simp_all [State.phase, Effect.isStop]

/-- Whoever waits and is stopped tells its installer so. -/
theorem Controller.Tame.answer_of_waiting {c : Controller} (h : c.Tame .stop)
    (hw : c.state = .waiting) {o : Except Error Answer} (ha : c.answer? = some o) :
    o = .error (.interrupted c.plan.name) := by
  obtain ⟨e, hmem, ha⟩ := exists_of_answer? ha
  have hx := h.signals _ hmem
  rw [hw] at ha
  cases e <;> simp_all [Phase.Sends, Event.signal, State.effects, transition] <;>
    exact (Option.some.inj ha).symm

namespace System

variable {s₀ s s' : System} {a : Name}

/-- A slot of this label is bound by a service that is to be taken along. -/
def BindsWithin (s₀ : System) (a : Name) (l : Label) : Prop :=
  ∃ i c, s₀.Within a i ∧ s₀.controllers[i]? = some c ∧ c.plan.Binds l

/-- What holds from the removal of a service on. -/
structure Cascades (s₀ : System) (a : Name) (s : System) : Prop where
  phased : s.Phased .stop
  confined : Confined s₀ a s
  spreads : Spreads s₀ a s
  slots : Cells.Frame (s₀.BindsWithin a) s₀.world.cells s.world.cells

theorem Cascades.step (h : Cascades s₀ a s) (h₀ : s₀.Orderly) (ho : s.Orderly) {x : Stimulus}
    (hs : Step s x s') (hx : x.isInternal = true) : Cascades s₀ a s' := by
  refine ⟨h.phased.step ho hs hx fun hc => h.phased.accepts ho hc,
    h.confined.step h₀ h.phased ho hs hx, h.spreads.step h.confined h.phased ho hs,
    h.slots.trans ?_⟩
  cases hs with
  | calm hcalm => exact .of_eq hcalm.cells
  | opened | asked => cases hx
  | received r rest hserving hi => exact .of_eq (receive_cells _)
  | finished hst => simp [h.phased.opened] at hst
  | took id c hc hcan =>
      have hended : c.ended = false := by simp_all [Controller.canTake]
      obtain ⟨_, message, rest, hi, hrefills⟩ :=
        (h.phased.controllers hc hended).take hcan id (h.phased.accepts ho hc)
      rw [applyTurn_cells]
      generalize (c.take id s.world).world.cells = cells at hrefills
      cases hrefills with
      | kept hno hframe => exact hframe.mono fun _ => False.elim
      | filled values hp => cases hp
      | emptied hp he hframe =>
          obtain ⟨c₀, hc₀, hplan, _⟩ := h.confined.controllers hc
          exact hframe.mono fun l hl =>
            ⟨id, c₀, h.confined.within_of_effects hc he, hc₀, hplan ▸ hl⟩
  | resumed id c callback answer hc hwake =>
      exact .of_eq ((applyTurn_cells _ _ _).trans (h.phased.resume ho hc hwake).2)
  | joined id t outcome hj => exact .of_eq hj.cells

/-- A settled and open container, one of its services, and callbacks that ask for nothing when the
services stop. -/
structure Removable (s₀ : System) (a : Name) : Prop where
  settled : s₀.Settled
  opened : s₀.container.stage = .opened
  installed : s₀.container.graph.contains a = true
  tame : ∀ {m : Name} {n : Node} {c : Controller}, s₀.container.graph.nodes[m]? = some n →
    s₀.controllers[n.inbox]? = some c → c.plan.conduct.Tame .stop

/-- What a request to remove a service does at first. -/
theorem apply_remove (hst : s₀.container.stage = .opened) (origin : Origin) (a : Name) :
    ∃ k, (s₀.apply (.request origin (.remove a))).container =
        { s₀.container with inbox := s₀.container.inbox ++ [.remove a k] } ∧
      (s₀.apply (.request origin (.remove a))).controllers = s₀.controllers ∧
      (s₀.apply (.request origin (.remove a))).tasks = s₀.tasks ∧
      (s₀.apply (.request origin (.remove a))).world.cells = s₀.world.cells := by
  let w := (s₀.world.pledge (some ⟨origin, "remove", a⟩)).2
  have hsends := sends_sendAll { s₀ with world := w } [.remove a s₀.world.pledges.length]
  have hcells := sendAll_cells { s₀ with world := w } [.remove a s₀.world.pledges.length]
  refine ⟨s₀.world.pledges.length, hsends.container.trans ?_, hsends.controllers, hsends.tasks,
    hcells⟩
  simp [Container.sent, Container.isServing, hst]

theorem Removable.cascades (h : Removable s₀ a) (ho : s₀.Orderly) (origin : Origin) :
    Cascades s₀ a (s₀.apply (.request origin (.remove a))) := by
  obtain ⟨k, hcont, hcontrollers, htasks, hcells⟩ := apply_remove h.opened origin a
  have hsteady := ho.steady h.settled
  generalize s₀.apply (.request origin (.remove a)) = s at *
  have hinbox : s.container.inbox = [.remove a k] := by
    rw [hcont, h.settled.requests]
    rfl
  have hgraph : s.container.graph = s₀.container.graph := by rw [hcont]
  refine ⟨⟨by rw [hcont]; exact h.opened, ?_, ?_, ?_⟩, ⟨?_, ?_, ?_, ?_, ?_⟩, ⟨?_, ?_⟩,
    .of_eq hcells⟩
  · simp [hinbox, Request.Suits]
  · intro i c hc hended
    rw [hcontrollers] at hc
    have hsignals := h.settled.signals hc
    by_cases hhost : ∃ m, s₀.container.graph.Hosts m i
    · obtain ⟨m, n, hn, rfl⟩ := hhost
      obtain ⟨c', hc', _, _, _, _, hrests⟩ := hsteady.installed hn
      obtain rfl := Option.some.inj (hc.symm.trans hc')
      refine ⟨h.tame hn hc, fun callback hcallback => ?_, ?_, by simp [hsignals]⟩
      · simp [h.settled.callbacks c (List.mem_of_getElem? hc)] at hcallback
      · rcases hrests with ⟨hst, _⟩ | ⟨hst, _⟩ <;> simp [Phase.Allows, hst, State.phase]
    · push Not at hhost
      simp [(hsteady.ended hc hhost).2] at hended
  · intro k t ht hw
    rw [htasks] at ht
    simp [h.settled.completions t (List.mem_of_getElem? ht)] at hw
  · intro r hr
    rw [hinbox, List.mem_singleton] at hr
    exact .inl ⟨k, hr⟩
  · intro m n hn
    exact ⟨n, hgraph ▸ hn, rfl, rfl⟩
  · intro m n hn _
    obtain ⟨_, _, _, _, hno, _⟩ := hsteady.installed hn
    exact ⟨n, hgraph.symm ▸ hn, rfl, hno⟩
  · intro i c hc
    rw [hcontrollers] at hc
    exact ⟨c, hc, rfl, fun _ => ⟨rfl, h.settled.callbacks c (List.mem_of_getElem? hc),
      h.settled.signals hc⟩⟩
  · intro k t ht hw
    rw [htasks] at ht
    simp [h.settled.completions t (List.mem_of_getElem? ht)] at hw
  · exact .inl ⟨k, by simp [hinbox]⟩
  · intro m d n c hn hc hd hthere hleaves
    obtain ⟨j, hj⟩ := hthere
    obtain ⟨_, _, _, _, hno, _⟩ := hsteady.installed hj
    simp [hleaves j (hgraph.symm ▸ hj)] at hno

/-! ## Runs -/

section Run

variable {before after : List Stimulus} {origin : Origin}

/-- What is installed above a service is installed. -/
theorem exists_of_above {g : Graph} (ha : g.contains a = true) {m : Name} (h : g.Above a m) :
    ∃ n, g.nodes[m]? = some n := by
  cases h with
  | self => exact Graph.contains_iff.mp ha
  | dependent _ hn _ => exact ⟨_, hn⟩

theorem not_cancel_of_internal (origin : Origin) (operation : Operation)
    (hb : ∀ x ∈ before, x ≠ .cancel) (ha : ∀ x ∈ after, x.isInternal = true) :
    ∀ x ∈ before ++ .request origin operation :: after, x ≠ .cancel := by
  rintro x hx rfl
  rcases List.mem_append.mp hx with hx | hx
  · exact hb _ hx rfl
  · rcases List.mem_cons.mp hx with he | hx
    · cases he
    · simpa [Stimulus.isInternal] using ha _ hx

/-- Whatever happens after a request, as long as nobody outside asks for more. -/
theorem request_induction {operation : Operation} {P : List Stimulus → Prop}
    (hb : ∀ x ∈ before, x ≠ .cancel) (ha : ∀ x ∈ after, x.isInternal = true)
    (nil : P [.request origin operation])
    (snoc : ∀ {mid : List Stimulus} {x : Stimulus},
      (∀ y ∈ before ++ .request origin operation :: mid, y ≠ .cancel) → x.isInternal = true →
      (initial.run (before ++ .request origin operation :: mid)).Orderly →
      Step (initial.run (before ++ .request origin operation :: mid)) x
        (initial.run (before ++ .request origin operation :: (mid ++ [x]))) →
      (∀ y ∈ mid, y.isInternal = true) →
      P (.request origin operation :: mid) → P (.request origin operation :: (mid ++ [x]))) :
    P (.request origin operation :: after) := by
  induction after using List.reverseRecOn with
  | nil => exact nil
  | append_singleton mid x ih =>
      have hmid : ∀ y ∈ mid, y.isInternal = true := fun y hy => ha y (List.mem_append_left _ hy)
      have hlast : x.isInternal = true := ha x (by simp)
      have hno := not_cancel_of_internal origin operation hb hmid
      have ho := orderly_run hno
      refine snoc hno hlast ho ?_ hmid (ih hmid)
      rw [← List.cons_append, ← List.append_assoc, run_snoc]
      refine step_apply ho.uncancelled ?_
      rintro rfl
      cases hlast

theorem Removable.run (h : Removable (initial.run before) a) (origin : Origin)
    (hb : ∀ x ∈ before, x ≠ .cancel) (ha : ∀ x ∈ after, x.isInternal = true) :
    Cascades (initial.run before) a
      (initial.run (before ++ .request origin (.remove a) :: after)) := by
  refine request_induction (P := fun happened => Cascades (initial.run before) a
    (initial.run (before ++ happened))) hb ha ?_ fun _ hx ho hs _ hc =>
      hc.step (orderly_run hb) ho hs hx
  rw [run_append]
  exact h.cascades (orderly_run hb) origin

/-- What has become of a controller since a service was to be removed. -/
structure Fares (before happened : List Stimulus) (a : Name) (i : Nat) (c₀ c : Controller) :
    Prop where
  halts : c₀.state.Halts c.state ((initial.run before).trace happened i)
  told : c₀.state = .waiting → ∀ k, c₀.install = some k → c.install = some k ∨
    (initial.run (before ++ happened)).world.status k =
      some (some (.error (.interrupted c₀.plan.name)))
  silent : ¬(initial.run before).Within a i → (initial.run before).trace happened i = []

theorem Fares.begins (before : List Stimulus) (origin : Origin) (operation : Operation) (a : Name)
    (i : Nat) (c : Controller) : Fares before [.request origin operation] a i c c := by
  have htrace : (initial.run before).trace [.request origin operation] i = [] :=
    (List.append_nil _).trans (effects_of_ne (by simp) i)
  exact ⟨htrace ▸ .refl _, fun _ k hk => .inl hk, fun _ => htrace⟩

theorem Phased.not_starting (h : s.Phased .stop) (ho : s.Orderly) {i : Nat} {c : Controller}
    (hc : s.controllers[i]? = some c) : c.state.phase ≠ 1 := by
  cases hended : c.ended with
  | true => simp [((ho.attended hc).ended hended).1, State.phase]
  | false => exact (h.controllers hc hended).state

theorem Fares.step {happened : List Stimulus} {i : Nat} {c₀ c c' : Controller} {x : Stimulus}
    (hf : Fares before happened a i c₀ c) (hphase : c.state.phase ≠ 1)
    (hphase' : c'.state.phase ≠ 1)
    (hwithin : ∀ e ∈ c.effects, (initial.run before).Within a i)
    (hanswers : c.canTake = true → c.state = .waiting → ∀ o, c.answer? = some o →
      o = .error (.interrupted c₀.plan.name))
    (hno : ∀ y ∈ before ++ happened, y ≠ .cancel)
    (hs : Step (initial.run (before ++ happened)) x (initial.run (before ++ (happened ++ [x]))))
    (hc : (initial.run (before ++ happened)).controllers[i]? = some c)
    (hc' : (initial.run (before ++ (happened ++ [x]))).controllers[i]? = some c') :
    Fares before (happened ++ [x]) a i c₀ c' := by
  have ho := orderly_run hno
  have htrace : (initial.run before).trace (happened ++ [x]) i =
      (initial.run before).trace happened i ++ (initial.run (before ++ happened)).effects x i := by
    rw [trace_snoc, ← run_append]
  have hrun : initial.run (before ++ (happened ++ [x])) =
      (initial.run (before ++ happened)).apply x := by
    rw [← List.append_assoc, run_snoc]
  refine ⟨?_, fun hw k hk => ?_, fun hout => ?_⟩
  · rcases hs.advances hc' with ⟨b, hb, hadv⟩ | ⟨hlen, _⟩
    · obtain rfl := Option.some.inj (hc.symm.trans hb)
      rw [htrace]
      exact hf.halts.advance hadv hphase'
    · have := (List.getElem?_eq_some_iff.mp hc).1
      omega
  · rw [hrun] at hs hc' ⊢
    rcases hf.told hw k hk with hinstall | hsettled
    · rcases ho.told_installer (owned_run hno) (owes_run hno hc) hs hc hinstall hc' with
        hk' | ⟨o, _, hcan, hanswer, hstatus⟩
      · exact .inl hk'
      · have hwaits : c.state = .waiting := by
          have hle := (owes_run hno hc).mp (by simp [hinstall])
          exact State.phase_eq_zero.mp (by omega)
        rw [hstatus, hanswers hcan hwaits o hanswer]
        exact .inr rfl
    · exact .inr (((ledger_run hno).step ho hs).2.settled hsettled)
  · rw [htrace, hf.silent hout, List.nil_append]
    refine List.eq_nil_iff_forall_not_mem.mpr fun e he => hout ?_
    obtain ⟨b, _, hb, _, he, _⟩ := take_of_effects he
    obtain rfl := Option.some.inj (hc.symm.trans hb)
    exact hwithin e he

theorem Removable.fares (h : Removable (initial.run before) a) (origin : Origin)
    (hb : ∀ x ∈ before, x ≠ .cancel) (ha : ∀ x ∈ after, x.isInternal = true) {i : Nat}
    {c₀ : Controller} (hc₀ : (initial.run before).controllers[i]? = some c₀) :
    ∃ c, (initial.run (before ++ .request origin (.remove a) :: after)).controllers[i]? = some c ∧
      Fares before (.request origin (.remove a) :: after) a i c₀ c := by
  refine request_induction (P := fun happened =>
    ∃ c, (initial.run (before ++ happened)).controllers[i]? = some c ∧
      Fares before happened a i c₀ c) hb ha ?_ ?_
  · obtain ⟨_, _, hsame, _⟩ := apply_remove h.opened origin a
    refine ⟨c₀, ?_, .begins ..⟩
    rw [run_append]
    exact (congrArg (·[i]?) hsame).trans hc₀
  · rintro mid x hno hx ho hs hmid ⟨c, hc, hf⟩
    have hall : ∀ y ∈ mid ++ [x], y.isInternal = true :=
      List.forall_mem_append.mpr ⟨hmid, List.forall_mem_singleton.mpr hx⟩
    obtain ⟨c', hc'⟩ := (ho.supplying hs).exists_controller hc
    have hcascades := h.run origin hb hmid
    refine ⟨c', hc', hf.step (hcascades.phased.not_starting ho hc)
      ((h.run origin hb hall).phased.not_starting (ho.step hs) hc')
      (fun e => hcascades.confined.within_of_effects hc) (fun hcan hw o hanswer => ?_) hno hs hc hc'⟩
    obtain ⟨b, hb₀, hplan, _⟩ := hcascades.confined.controllers hc
    obtain rfl := Option.some.inj (hc₀.symm.trans hb₀)
    rw [← hplan]
    exact (hcascades.phased.controllers hc (Controller.ended_of_canTake hcan)).answer_of_waiting hw
      hanswer

/-- Whoever waited and is removed was neither started nor stopped, and its installer is told that it
was interrupted. -/
theorem Fares.interrupted {happened : List Stimulus} {i : Nat} {c₀ c : Controller}
    (hf : Fares before happened a i c₀ c) (hno : ∀ x ∈ before ++ happened, x ≠ .cancel)
    (hc₀ : (initial.run before).controllers[i]? = some c₀)
    (hc : (initial.run (before ++ happened)).controllers[i]? = some c) (hw : c₀.state = .waiting)
    (hr : c.state = .removed) : .injectAndStart ∉ (initial.run before).trace happened i ∧
      ((initial.run before).trace happened i).countP Effect.isStop = 0 ∧
      ∃ k, LaunchedBy before i c₀.plan k ∧ (initial.run (before ++ happened)).world.outcome? k =
        some (.error (.interrupted c₀.plan.name)) := by
  have hb : ∀ x ∈ before, x ≠ .cancel := fun x hx => hno x (List.mem_append_left _ hx)
  obtain ⟨k, hlaunched, hticket⟩ := launchedBy_run hb hc₀
  refine ⟨hf.halts.unstarted, (hf.halts.waiting hw).2, k, hlaunched.mpr ⟨rfl, rfl⟩, ?_⟩
  obtain ⟨j, hj⟩ := Option.isSome_iff_exists.mp
    ((owes_run hb hc₀).mpr (by simp [hw, State.phase]))
  obtain rfl := hticket j hj
  rcases hf.told hw j hj with hopen | htold
  · rw [(owes_run hno hc).install_eq_none hr] at hopen
    cases hopen
  · exact World.outcome?_eq_some.mpr htold

/-! ## What is left -/

theorem Cascades.gone (h : Cascades s₀ a s) (ho : s.Orderly) (hs : s.Settled) :
    s.container.graph.nodes[a]? = none := by
  refine Option.eq_none_iff_forall_ne_some.mpr fun n hn => ?_
  rcases h.spreads.asked with ⟨k, hk⟩ | hstops
  · simp [hs.requests] at hk
  · obtain ⟨_, _, _, _, hno, _⟩ := (ho.steady hs).installed hn
    simp [hstops n hn] at hno

/-- Once nothing is under way and a service is gone, nobody above it is left. -/
theorem Confined.none_above (h : Confined s₀ a s) (hdooms : Dooms s₀ s) (ho : s.Orderly)
    (hs : s.Settled) (ha : s₀.container.graph.contains a = true)
    (hgone : s.container.graph.nodes[a]? = none) {m : Name} (hm : s₀.container.graph.Above a m) :
    s.container.graph.nodes[m]? = none := by
  induction hm with
  | self => exact hgone
  | @dependent d m n hd hn hdep ih =>
      refine Option.eq_none_iff_forall_ne_some.mpr fun n' hn' => ?_
      obtain ⟨n₀, hn₀, _, hsame⟩ := h.nodes hn'
      obtain rfl := Option.some.inj (hn.symm.trans hn₀)
      obtain ⟨c, hc⟩ := hs.stands ho hn'
      refine hs.not_draining ho hn' hc (hc.draining_of_doomed ?_)
      exact hdooms hn' hc.controller (hsame ▸ hdep) (exists_of_above ha hd) (by simp [ih])

/-- If nobody above a service is left, those are left that are not above it. -/
theorem Confined.hosts_iff (h : Confined s₀ a s)
    (hnone : ∀ {m}, s₀.container.graph.Above a m → s.container.graph.nodes[m]? = none) {m : Name}
    {i : Nat} : s.container.graph.Hosts m i ↔
      s₀.container.graph.Hosts m i ∧ ¬s₀.container.graph.Above a m := by
  constructor
  · rintro ⟨n, hn, rfl⟩
    obtain ⟨n₀, hn₀, hi, _⟩ := h.nodes hn
    refine ⟨⟨n₀, hn₀, hi.symm⟩, fun hm => ?_⟩
    simp [hnone hm] at hn
  · rintro ⟨⟨n₀, hn₀, rfl⟩, hm⟩
    obtain ⟨n, hn, hi, _⟩ := h.spares hn₀ hm
    exact ⟨n, hn, hi⟩

/-- If nobody above a service is left, their controllers are done. -/
theorem Confined.removed (h : Confined s₀ a s)
    (hnone : ∀ {m}, s₀.container.graph.Above a m → s.container.graph.nodes[m]? = none)
    (h₀ : s₀.Orderly) (ho : s.Orderly) (hs : s.Settled) {m : Name} {n : Node} {c : Controller}
    (hm : s₀.container.graph.Above a m) (hn : s₀.container.graph.nodes[m]? = some n)
    (hc : s.controllers[n.inbox]? = some c) : c.state = .removed := by
  refine ((ho.steady hs).ended hc fun m' hhost => ?_).1
  obtain ⟨⟨n', hn', hi⟩, hnot⟩ := (h.hosts_iff hnone).mp hhost
  exact hnot (h₀.consistent.ordered.coherent.inboxes hn' hn hi ▸ hm)

/-- What a request to remove a service leaves, once nothing is under way any more. -/
structure TakesAlong (before happened : List Stimulus) (a : Name) : Prop where
  installed : ∀ {m : Name} {i : Nat}, (initial.run (before ++ happened)).container.graph.Hosts m i ↔
    (initial.run before).container.graph.Hosts m i ∧
      ¬(initial.run before).container.graph.Above a m
  spared : ∀ {m : Name} {n : Node} {c : Controller},
    (initial.run before).container.graph.nodes[m]? = some n →
    (initial.run before).controllers[n.inbox]? = some c →
    ¬(initial.run before).container.graph.Above a m →
    (initial.run before).trace happened n.inbox = [] ∧
      (∃ n', (initial.run (before ++ happened)).container.graph.nodes[m]? = some n' ∧
        n'.inbox = n.inbox ∧ n'.state = n.state) ∧
      ∃ c', (initial.run (before ++ happened)).controllers[n.inbox]? = some c' ∧
        c'.plan = c.plan ∧ c'.state = c.state
  untouched : ∀ {l : Label}, ¬(initial.run before).BindsWithin a l →
    (initial.run (before ++ happened)).world.cells.slot? l =
      (initial.run before).world.cells.slot? l
  stopped : ∀ {m : Name} {n : Node} {c : Controller},
    (initial.run before).container.graph.nodes[m]? = some n →
    (initial.run before).controllers[n.inbox]? = some c →
    (initial.run before).container.graph.Above a m → c.state = .started →
    ((initial.run before).trace happened n.inbox).countP Effect.isStop = 1
  ordered : ∀ {mid rest : List Stimulus} {x : Stimulus} {d m : Name} {k n : Node} {c : Controller}
    {interrupted : Bool}, happened = mid ++ x :: rest →
    (initial.run before).container.graph.nodes[d]? = some k →
    .invokeStop interrupted ∈ (initial.run (before ++ mid)).effects x k.inbox →
    (initial.run before).container.graph.nodes[m]? = some n → d ∈ n.dependencies →
    (initial.run before).controllers[n.inbox]? = some c → c.state = .started →
    ∃ c', (initial.run (before ++ mid)).controllers[n.inbox]? = some c' ∧ c'.state = .removed
  aborted : ∀ {m : Name} {n : Node} {c : Controller},
    (initial.run before).container.graph.nodes[m]? = some n →
    (initial.run before).controllers[n.inbox]? = some c →
    (initial.run before).container.graph.Above a m → c.state = .waiting →
    .injectAndStart ∉ (initial.run before).trace happened n.inbox ∧
      ((initial.run before).trace happened n.inbox).countP Effect.isStop = 0 ∧
      ∃ k, LaunchedBy before n.inbox c.plan k ∧
        (initial.run (before ++ happened)).world.outcome? k = some (.error (.interrupted m))

/-- Whoever was started before the removal and depends on a service that is stopped is removed
already. -/
theorem Removable.ordered (h : Removable (initial.run before) a) (hb : ∀ x ∈ before, x ≠ .cancel)
    {mid : List Stimulus} (ha : ∀ x ∈ mid, x.isInternal = true) {x : Stimulus} {d m : Name}
    {k n : Node} {c : Controller} {interrupted : Bool}
    (hk : (initial.run before).container.graph.nodes[d]? = some k)
    (he : .invokeStop interrupted ∈
      (initial.run (before ++ .request origin (.remove a) :: mid)).effects x k.inbox)
    (hn : (initial.run before).container.graph.nodes[m]? = some n) (hd : d ∈ n.dependencies)
    (hc : (initial.run before).controllers[n.inbox]? = some c) (hst : c.state = .started) :
    ∃ c', (initial.run (before ++ .request origin (.remove a) :: mid)).controllers[n.inbox]? =
      some c' ∧ c'.state = .removed := by
  have hno := not_cancel_of_internal origin (.remove a) hb ha
  have hconfined := (h.run origin hb ha).confined
  obtain ⟨c', hc', _⟩ := h.fares origin hb ha hc
  refine ⟨c', hc', ?_⟩
  by_contra hr
  have hbegun : .injectAndStart ∈
      initial.trace (before ++ .request origin (.remove a) :: mid) n.inbox := by
    rw [trace_append]
    refine List.mem_append_left _ (List.count_pos_iff.mp ?_)
    rw [(begun_run hb hc).once (by simp [hst, State.phase]) (by simp [hst, State.phase])]
    exact Nat.one_pos
  have hruns : Running (before ++ .request origin (.remove a) :: mid) n.inbox c' :=
    ⟨hc', hbegun, hr⟩
  have hdep : d ∈ c'.plan.dependencies := by
    obtain ⟨c₀, hc₀, hplan, _⟩ := hconfined.controllers hc'
    obtain ⟨c₁, hc₁, hl⟩ := (orderly_run hb).consistent.linked hn
    obtain rfl := Option.some.inj (hc.symm.trans hc₀)
    obtain rfl := Option.some.inj (hc.symm.trans hc₁)
    rw [hplan, hl.dependencies]
    exact hd
  obtain ⟨y, _, ⟨k', hk', rfl⟩, _, _, hgiven⟩ := hruns.kept hno hdep
  obtain ⟨k₀, hk₀, hinbox, _⟩ := hconfined.nodes hk'
  obtain rfl := Option.some.inj (hk.symm.trans hk₀)
  exact hruns.unstopped hno hdep he ((hgiven _).mpr hinbox.symm)

/-- A removed service takes along whoever depends on it, itself or through others, and no one
else. -/
theorem takesAlong_run (hb : ∀ x ∈ before, x ≠ .cancel) (h : Removable (initial.run before) a)
    (ha : ∀ x ∈ after, x.isInternal = true)
    (hs : (initial.run (before ++ .request origin (.remove a) :: after)).Settled) :
    TakesAlong before (.request origin (.remove a) :: after) a := by
  have ho₀ := orderly_run hb
  have hno := not_cancel_of_internal origin (.remove a) hb ha
  have ho := orderly_run hno
  have hall := h.run origin hb ha
  have hconfined := hall.confined
  have hnone : ∀ {m}, (initial.run before).container.graph.Above a m →
      (initial.run (before ++ .request origin (.remove a) :: after)).container.graph.nodes[m]? =
        none :=
    hconfined.none_above hall.spreads.doomed ho hs h.installed (hall.gone ho hs)
  refine ⟨hconfined.hosts_iff hnone, ?_, hall.slots.kept, ?_, ?_, ?_⟩
  · intro m n c hn hc hm
    have hout := ho₀.not_within hn hm
    obtain ⟨c', hc', hf⟩ := h.fares origin hb ha hc
    obtain ⟨c₀, hc₀, hplan, hstill⟩ := hconfined.controllers hc'
    obtain rfl := Option.some.inj (hc.symm.trans hc₀)
    exact ⟨hf.silent hout, hconfined.spares hn hm, c', hc', hplan, (hstill hout).1⟩
  · intro m n c hn hc hm hst
    obtain ⟨c', hc', hf⟩ := h.fares origin hb ha hc
    rw [(hf.halts.started hst).2, hconfined.removed hnone ho₀ ho hs hm hn hc']
    rfl
  · intro mid rest x d m k n c interrupted he hk hstop hn hd hc hst
    cases mid with
    | nil =>
        obtain ⟨rfl, _⟩ := List.cons.inj he
        simp [effects_of_ne] at hstop
    | cons y mid =>
        obtain ⟨rfl, rfl⟩ := List.cons.inj he
        exact h.ordered hb (fun z hz => ha z (List.mem_append_left _ hz)) hk hstop hn hd hc hst
  · intro m n c hn hc hm hw
    obtain ⟨c', hc', hf⟩ := h.fares origin hb ha hc
    obtain ⟨c₁, hc₁, hl⟩ := ho₀.consistent.linked hn
    obtain rfl := Option.some.inj (hc.symm.trans hc₁)
    rw [← hl.name]
    exact hf.interrupted hno hc hc' hw (hconfined.removed hnone ho₀ ho hs hm hn hc')

end Run

theorem Removable.of_run {before : List Stimulus} (hs : (initial.run before).Settled)
    (hst : (initial.run before).container.stage = .opened)
    (ha : (initial.run before).container.graph.contains a = true)
    (ht : ∀ c ∈ (initial.run before).controllers, c.plan.conduct.Tame .stop) :
    Removable (initial.run before) a :=
  ⟨hs, hst, ha, fun _ hc => ht _ (List.mem_of_getElem? hc)⟩

/-- A service is started, and one that depends on it waits for another one besides. -/
def halfStarts : List Stimulus :=
  [.request (.request 0) .start, .request (.request 1) (.install (plainService "base" [])),
    .request (.request 2) (.install (plainService "top" ["base", "none"]))] ++ turns 8 2

theorem takesAlong_halfStarts : (∀ x ∈ halfStarts, x ≠ .cancel) ∧
    Removable (initial.run halfStarts) "base" ∧
    (initial.run (halfStarts ++ .request (.request 3) (.remove "base") :: turns 8 2)).Settled ∧
    TakesAlong halfStarts (.request (.request 3) (.remove "base") :: turns 8 2) "base" := by
  have hx : ∀ x ∈ halfStarts, x ≠ .cancel :=
    List.forall_mem_append.mpr ⟨by simp, not_cancel_turns 8 2⟩
  have hr : Removable (initial.run halfStarts) "base" :=
    .of_run (by decide +kernel) (by decide +kernel) (by decide +kernel) (by decide +kernel)
  have hs : (initial.run
      (halfStarts ++ .request (.request 3) (.remove "base") :: turns 8 2)).Settled := by
    decide +kernel
  exact ⟨hx, hr, hs, takesAlong_run hx hr (isInternal_turns 8 2) hs⟩

/-- A service, one that shares a slot for its value with another, and one that only the first of
these depends on besides. -/
def sharedStarts : List Stimulus :=
  [.request (.request 0) .start,
    .request (.request 1) (.install { plainService "d" [] with value := .u64 7 }),
    .request (.request 2) (.install (plainService "a" [])),
    .request (.request 3)
      (.install { plainService "x" ["a"] with slots := [⟨"d", .u64, "l"⟩] }),
    .request (.request 4) (.install { plainService "y" [] with slots := [⟨"d", .u64, "l"⟩] })] ++
    turns 12 4

/-- Slots of services that are not taken along may be emptied: those they share with others. -/
theorem not_untouched_of_spared : ¬∀ (before after : List Stimulus) (origin : Origin) (a : Name),
    (∀ x ∈ before, x ≠ .cancel) → Removable (initial.run before) a →
    (∀ x ∈ after, x.isInternal = true) →
    (initial.run (before ++ .request origin (.remove a) :: after)).Settled →
    ∀ (m : Name) (n : Node) (c : Controller) (l : Label),
      (initial.run before).container.graph.nodes[m]? = some n →
      (initial.run before).controllers[n.inbox]? = some c →
      ¬(initial.run before).container.graph.Above a m → c.plan.Binds l →
      (initial.run (before ++ .request origin (.remove a) :: after)).world.cells.slot? l =
        (initial.run before).world.cells.slot? l := by
  intro h
  have hx : ∀ x ∈ sharedStarts, x ≠ .cancel :=
    List.forall_mem_append.mpr ⟨by simp, not_cancel_turns 12 4⟩
  have hr : Removable (initial.run sharedStarts) "a" :=
    .of_run (by decide +kernel) (by decide +kernel) (by decide +kernel) (by decide +kernel)
  obtain ⟨n, hn⟩ : ∃ n, (initial.run sharedStarts).container.graph.nodes["y"]? = some n :=
    Option.isSome_iff_exists.mp (by decide +kernel)
  obtain ⟨c, hc, hname, _⟩ := ((orderly_run hx).steady hr.settled).installed hn
  have hout : ¬(initial.run sharedStarts).container.graph.Above "a" "y" := fun hy =>
    absurd (hy.mem_of_closed (l := ["a", "x"]) (by decide) (by decide +kernel)) (by decide)
  have hbinds : ∀ c ∈ (initial.run sharedStarts).controllers, c.plan.name = "y" →
      "l" ∈ c.plan.slotsOf "d" := by decide +kernel
  have hkept := h sharedStarts (turns 12 4) (.request 5) "a" hx hr (isInternal_turns 12 4)
    (by decide +kernel) "y" n c "l" hn hc hout ⟨"d", hbinds c (List.mem_of_getElem? hc) hname⟩
  revert hkept
  decide +kernel

end System

end ServiceHost
