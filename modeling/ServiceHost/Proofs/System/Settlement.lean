import ServiceHost.Proofs.System.Orderly

/-! # Nothing gets stuck

Once nothing is under way any more, every installed service has started along with everything it
depends on, or still lacks a dependency. -/

namespace ServiceHost

namespace System

/-- No message is in flight, no callback is suspended, and no completion is pending. -/
structure Settled (s : System) : Prop where
  requests : s.container.inbox = []
  messages : ∀ c ∈ s.controllers, c.inbox = []
  callbacks : ∀ c ∈ s.controllers, c.callback = none
  completions : ∀ t ∈ s.tasks, t.watched = false

theorem settled_iff {s : System} : s.Settled ↔ s.container.inbox.isEmpty = true ∧
    (s.controllers.all fun c => c.inbox.isEmpty && c.callback.isNone) = true ∧
    (s.tasks.all fun t => !t.watched) = true := by
  simp only [List.isEmpty_iff, List.all_eq_true, Bool.and_eq_true, Option.isNone_iff_eq_none,
    Bool.not_eq_true']
  constructor
  · rintro ⟨hr, hm, hc, ht⟩
    exact ⟨hr, fun c hmem => ⟨hm c hmem, hc c hmem⟩, ht⟩
  · rintro ⟨hr, hc, ht⟩
    exact ⟨hr, fun c hmem => (hc c hmem).1, fun c hmem => (hc c hmem).2, ht⟩

instance (s : System) : Decidable s.Settled := decidable_of_iff _ settled_iff.symm

/-- A service is installed under this name, and its controller has started it. -/
def HasStarted (s : System) (d : Name) : Prop :=
  ∃ (n : Node) (c : Controller), s.container.graph.nodes[d]? = some n ∧
    s.controllers[n.inbox]? = some c ∧ c.state = .started

theorem hasStarted_iff {s : System} {d : Name} : s.HasStarted d ↔
    ((s.container.graph.nodes[d]?.bind fun n => s.controllers[n.inbox]?).any
      fun c => decide (c.state = .started)) = true := by
  simp only [HasStarted, Option.any_eq_true, Option.bind_eq_some_iff, decide_eq_true_eq]
  constructor
  · rintro ⟨n, c, hn, hc, hs⟩
    exact ⟨c, ⟨n, hn, hc⟩, hs⟩
  · rintro ⟨c, ⟨n, hn, hc⟩, hs⟩
    exact ⟨n, c, hn, hc, hs⟩

instance (s : System) (d : Name) : Decidable (s.HasStarted d) :=
  decidable_of_iff _ hasStarted_iff.symm

/-- Where the service of a controller rests: it has started and so have its dependencies, or it
waits and one of them is missing. -/
def RestsWell (s : System) (c : Controller) : Prop :=
  (c.state = .started ∧ ∀ d ∈ c.plan.dependencies, s.HasStarted d) ∨
    (c.state = .waiting ∧ ∃ d ∈ c.plan.dependencies, ¬s.HasStarted d)

/-- Every installed service rests where it should, nobody waits for a service to be removed, and
the controllers of all other services have ended. -/
structure Steady (s : System) : Prop where
  installed : ∀ {m : Name} {n : Node}, s.container.graph.nodes[m]? = some n →
    ∃ c : Controller, s.controllers[n.inbox]? = some c ∧ c.plan.name = m ∧ c.state = n.state ∧
      n.stopping = false ∧ n.pendingDependents = none ∧ s.RestsWell c
  ended : ∀ {i : Nat} {c : Controller}, s.controllers[i]? = some c →
    (∀ m, ¬s.container.graph.Hosts m i) → c.state = .removed ∧ c.ended = true

variable {s : System} {m : Name} {n : Node} {c : Controller}

/-- The controller of a service in a settled system: it waits, has started or is draining. -/
structure Stands (s : System) (m : Name) (n : Node) (c : Controller) : Prop where
  controller : s.controllers[n.inbox]? = some c
  linked : Linked m n c []
  signals : c.signals = []
  same : c.state = n.state
  state : c.state = .waiting ∨ c.state = .started ∨ c.state = .draining

theorem Settled.signals (hs : s.Settled) {i : Nat} (hc : s.controllers[i]? = some c) :
    c.signals = [] := by
  unfold Controller.signals
  rw [hs.messages c (List.mem_of_getElem? hc)]
  rfl

/-- No callback is under way in a settled system. -/
theorem Settled.not_in (hs : s.Settled) (h : s.Orderly) {i : Nat}
    (hc : s.controllers[i]? = some c) (phase : Phase) : ¬phase.In c.state := by
  intro hp
  rcases (h.attended hc).awaits phase hp with hsome | ⟨x, hx, _⟩ | ⟨k, t, ht, hserves⟩
  · simp [hs.callbacks c (List.mem_of_getElem? hc)] at hsome
  · simp [hs.signals hc] at hx
  · have := hs.completions t (List.mem_of_getElem? ht)
    simp [hserves.watched] at this

theorem Settled.stands (hs : s.Settled) (h : s.Orderly)
    (hn : s.container.graph.nodes[m]? = some n) : ∃ c, s.Stands m n c := by
  obtain ⟨c, hc, hl⟩ := h.consistent.linked hn
  rw [hs.requests] at hl
  replace hl : Linked m n c [] := hl
  have hphase : n.state.phase = c.state.phase := by
    obtain ⟨st, hst, hp⟩ := hl.reached (hs.callbacks c (List.mem_of_getElem? hc))
    simp only [Node.outlook, List.map_nil, List.mem_singleton] at hst
    exact hst ▸ hp
  have hstart : c.state.phase ≠ 1 := hs.not_in h hc .start
  have hstop : c.state.phase ≠ 4 := hs.not_in h hc .stop
  have hremoved : c.state.phase ≠ 5 := by
    intro hp
    exact hl.installed (State.phase_eq_five.mp (hphase.trans hp))
  exact ⟨c, hc, hl, hs.signals hc, State.eq_of_phase_eq hphase.symm hstart,
    State.idle_cases hstart hstop hremoved⟩

namespace Stands

/-- Only a draining service is on its way out. -/
theorem draining_of_doomed (h : s.Stands m n c) (hd : c.Doomed) : c.state = .draining := by
  have hstate := h.state
  rcases hd with hd | hd | ⟨x, hx, _⟩
  · rcases hstate with hst | hst | hst
    · simp [State.Leaving, hst, State.phase] at hd
    · simp [State.Leaving, hst, State.phase] at hd
    · exact hst
  · simp [hd] at hstate
  · simp [h.signals] at hx

theorem draining_of (h : s.Stands m n c) (ho : s.Orderly)
    (hn : s.container.graph.nodes[m]? = some n)
    (hst : n.stopping = true ∨ s.container.graph.Awaited m) : c.state = .draining :=
  h.draining_of_doomed (ho.consistent.doomed hn h.controller hst)

/-- A draining service awaits some dependent. -/
theorem exists_awaited (h : s.Stands m n c) (ho : s.Orderly)
    (hn : s.container.graph.nodes[m]? = some n) (hd : c.state = .draining) :
    ∃ x p, n.pendingDependents = some p ∧ x ∈ p := by
  have hstopping : n.stopping = true := by
    refine ho.consistent.ordered.leaving hn ?_
    rw [← h.same, hd]
    decide
  by_contra hno
  push Not at hno
  have hp : n.pendingDependents = none := by
    rw [ho.consistent.ordered.coherent.pending_eq_none hn]
    rintro x ⟨p, hp, hx⟩
    exact hno x p hp hx
  have hsignal := h.linked.draining ⟨hstopping, hp⟩ hd
  simp [h.signals] at hsignal

end Stands

/-- The dependents a draining service awaits are draining themselves and come later in the order
of dependencies, so that there is none. -/
theorem Settled.not_draining (hs : s.Settled) (h : s.Orderly)
    (hn : s.container.graph.nodes[m]? = some n) (hc : s.Stands m n c) : c.state ≠ .draining := by
  have hord := h.consistent.ordered
  obtain ⟨rank, hrank⟩ := hord.ranked
  obtain ⟨bound, hbound⟩ := Graph.exists_rank_above rank s.container.graph.nodes.keys
  have hlt : ∀ {m : Name} {n : Node}, s.container.graph.nodes[m]? = some n → rank m < bound := by
    intro m n hn
    refine hbound m ?_
    rw [Std.ExtTreeMap.mem_keys, Std.ExtTreeMap.mem_iff_isSome_getElem?, hn]
    rfl
  -- by induction on how many ranks there are above
  suffices hnone : ∀ (k : Nat) {m : Name} {n : Node} {c : Controller},
      s.container.graph.nodes[m]? = some n → s.Stands m n c → bound ≤ rank m + k →
      c.state ≠ .draining from hnone bound hn hc (by omega)
  intro k
  induction k with
  | zero =>
      intro m n c hn _ hk
      have := hlt hn
      omega
  | succ k ih =>
      intro m n c hn hc hk hd
      obtain ⟨x, p, hp, hx⟩ := hc.exists_awaited h hn hd
      obtain ⟨j, hj, hdep⟩ := (hord.coherent.pending hn hp).2.2 x hx
      obtain ⟨b, hb⟩ := hs.stands h hj
      have hdrain := hb.draining_of h hj (.inr ⟨m, n, p, hn, hp, hx⟩)
      have hres : j.resolved = true := hord.resolved hj (by rw [← hb.same, hdrain]; decide)
      have hless := hrank hj hres hdep
      exact ih hj hb (by omega) hdrain

theorem Settled.restsWell (hs : s.Settled) (h : s.Orderly)
    (hn : s.container.graph.nodes[m]? = some n) (hc : s.Stands m n c) : s.RestsWell c := by
  have hord := h.consistent.ordered
  have hcalm : ∀ {d : Name} {k : Node}, s.container.graph.nodes[d]? = some k →
      ∃ b, s.Stands d k b ∧ k.stopping = false := by
    intro d k hk
    obtain ⟨b, hb⟩ := hs.stands h hk
    refine ⟨b, hb, ?_⟩
    by_contra hst
    exact hs.not_draining h hk hb (hb.draining_of h hk (.inl (by simpa using hst)))
  rcases hc.state with hw | hst | hd
  · refine .inr ⟨hw, ?_⟩
    have hres : n.resolved = false := by
      by_contra hres
      have := hc.linked.given (by simpa using hres) hw
      simp [hc.signals] at this
    obtain ⟨_, _, hstop⟩ := hcalm hn
    obtain ⟨d, hd, hnone⟩ := hord.missing hn hres hstop
    refine ⟨d, hc.linked.dependencies ▸ hd, ?_⟩
    rintro ⟨k, b, hk, hb, hks⟩
    obtain ⟨b', hb', hkst⟩ := hcalm hk
    obtain rfl := Option.some.inj (hb.symm.trans hb'.controller)
    have hval := hord.exposed hk (hb'.same.symm.trans hks) hkst
    rw [Graph.exposed?_eq, hk] at hnone
    simp [hkst] at hnone
    simp [hnone] at hval
  · refine .inl ⟨hst, fun d hd => ?_⟩
    have hres : n.resolved = true := hord.resolved hn (by rw [← hc.same, hst]; decide)
    obtain ⟨k, hk, huse, _⟩ := hord.anchored hn hres (hc.linked.dependencies ▸ hd)
    obtain ⟨b, hb, _⟩ := hcalm hk
    rcases huse with hks | hks
    · exact ⟨k, b, hk, hb.controller, hb.same.trans hks⟩
    · exact absurd (hb.same.trans hks) (hs.not_draining h hk hb)
  · exact absurd hd (hs.not_draining h hn hc)

theorem Orderly.steady (h : s.Orderly) (hs : s.Settled) : s.Steady := by
  refine ⟨?_, ?_⟩
  · intro m n hn
    obtain ⟨c, hc⟩ := hs.stands h hn
    have hstop : n.stopping = false := by
      by_contra hst
      exact hs.not_draining h hn hc (hc.draining_of h hn (.inl (by simpa using hst)))
    refine ⟨c, hc.controller, hc.linked.name, hc.same, hstop, ?_, hs.restsWell h hn hc⟩
    by_contra hp
    obtain ⟨p, hp⟩ := Option.ne_none_iff_exists'.mp hp
    have := (h.consistent.ordered.coherent.pending hn hp).1
    simp [hstop] at this
  · intro i c hc hno
    have hr := h.consistent.gone hc hno
    refine ⟨hr, ((h.attended hc).last hr).resolve_right ?_⟩
    simp [hs.signals hc]

/-- Whatever happened before, in a settled system every installed service has started along with
all its dependencies, or waits for one that is not there. -/
theorem steady_of_settled {happened : List Stimulus} (hx : ∀ x ∈ happened, x ≠ .cancel)
    (hs : (initial.run happened).Settled) : (initial.run happened).Steady :=
  (orderly_run hx).steady hs

/-- A service that needs others and has nothing to do. -/
def plainService (name : Name) (dependencies : List Name) : Service :=
  { name, value := .unit, dependencies, slots := [], group := none, rosters := []
    callbacks := .plain, forget := false }

/-- Everyone there is gets a turn, over and over. -/
def turns (rounds controllers : Nat) : List Stimulus :=
  (List.replicate rounds (.move .receive ::
    (List.range controllers).map fun i => .move (.take i))).flatten

theorem isInternal_turns (rounds controllers : Nat) :
    ∀ x ∈ turns rounds controllers, x.isInternal = true := by
  intro x hx
  obtain ⟨l, hl, hx⟩ := List.mem_flatten.mp hx
  rw [(List.mem_replicate.mp hl).2] at hx
  rcases List.mem_cons.mp hx with rfl | hx
  · rfl
  · obtain ⟨i, _, rfl⟩ := List.mem_map.mp hx
    rfl

theorem not_cancel_turns (rounds controllers : Nat) :
    ∀ x ∈ turns rounds controllers, x ≠ .cancel := by
  rintro x hx rfl
  simpa [Stimulus.isInternal] using isInternal_turns rounds controllers _ hx

/-- A service and one that depends on it are installed and started. -/
def pairStarts : List Stimulus :=
  [.request (.request 0) .start, .request (.request 1) (.install (plainService "base" [])),
    .request (.request 2) (.install (plainService "top" ["base"])), .move .receive,
    .move .receive, .move (.take 0), .move (.take 0), .move .receive, .move .receive,
    .move .receive, .move (.take 1), .move (.take 1), .move .receive, .move .receive]

theorem steady_pairStarts : (∀ x ∈ pairStarts, x ≠ .cancel) ∧
    (initial.run pairStarts).Settled ∧ (initial.run pairStarts).Steady := by
  have hx : ∀ x ∈ pairStarts, x ≠ .cancel := by simp [pairStarts]
  have hs : (initial.run pairStarts).Settled := by decide +kernel
  exact ⟨hx, hs, steady_of_settled hx hs⟩

end System

end ServiceHost
