import ServiceHost.Proofs.System.Effects
import ServiceHost.Proofs.System.Settlement

/-! # Dependencies outlive their dependents

Whoever was started keeps the very services whose values it was given: until it is removed they are
installed under their names, and none of them is stopped. -/

namespace ServiceHost

namespace System

/-- In the course of a run, a controller was given the value that the service with another one
exposed under a name. -/
def Supplied (happened : List Stimulus) (i : Nat) (d : Name) (y : Nat) : Prop :=
  ∃ before x after, happened = before ++ x :: after ∧ (initial.run before).Supplies x i d y

/-- What the services that are installed have been given in the course of a run. -/
structure Given (happened : List Stimulus) : Prop where
  resolved : ∀ {m d : Name} {n : Node} {c : Controller},
    (initial.run happened).container.graph.nodes[m]? = some n →
    (initial.run happened).controllers[n.inbox]? = some c → c.state ≠ .removed →
    n.resolved = true → d ∈ n.dependencies →
    ∀ y, Supplied happened n.inbox d y ↔ (initial.run happened).container.graph.Hosts d y
  unresolved : ∀ {m d : Name} {n : Node} {y : Nat},
    (initial.run happened).container.graph.nodes[m]? = some n → n.resolved = false →
    ¬Supplied happened n.inbox d y
  fresh : ∀ {i : Nat} {d : Name} {y : Nat}, (initial.run happened).controllers.length ≤ i →
    ¬Supplied happened i d y

variable {happened : List Stimulus}

theorem not_supplied_nil {i y : Nat} {d : Name} : ¬Supplied [] i d y := by
  rintro ⟨before, x, after, he, _⟩
  simp at he

theorem supplied_concat {x : Stimulus} {i y : Nat} {d : Name} :
    Supplied (happened ++ [x]) i d y ↔
      Supplied happened i d y ∨ (initial.run happened).Supplies x i d y := by
  constructor
  · rintro ⟨before, x', after, he, hs⟩
    rcases append_eq_split.mp he with ⟨rfl, rfl, _⟩ | ⟨after, _, rfl⟩
    · exact .inr hs
    · exact .inl ⟨before, x', after, rfl, hs⟩
  · rintro (⟨before, x', after, rfl, hs⟩ | hs)
    · exact ⟨before, x', after ++ [x], by simp, hs⟩
    · exact ⟨happened, x, [], rfl, hs⟩

/-- Whoever is given its dependencies in a step, is given them by those installed then. -/
theorem Supplying.supplies_iff {s : System} {x : Stimulus} {m d : Name} {n : Node}
    {c : Controller} (h : s.Supplying (s.apply x)) (hg : (s.apply x).container.graph.Coherent)
    (hn : (s.apply x).container.graph.nodes[m]? = some n)
    (hc : (s.apply x).controllers[n.inbox]? = some c) (hr : c.state ≠ .removed)
    (hres : n.resolved = true)
    (hno : ∀ n, s.container.graph.nodes[m]? = some n → n.resolved = false)
    (hd : d ∈ n.dependencies) (y : Nat) :
    s.Supplies x n.inbox d y ↔ (s.apply x).container.graph.Hosts d y := by
  constructor
  · rintro ⟨_, _, _, _, hhosts, _⟩
    exact hhosts
  · intro hhosts
    obtain ⟨values, hoff⟩ := h.newly hn hc hr hres hno
    obtain ⟨m', n', hn', hi, _, hav, _⟩ := h.offered hoff
    obtain rfl := hg.inboxes hn' hn hi
    obtain rfl := Option.some.inj (hn'.symm.trans hn)
    obtain ⟨v, hv, hexp⟩ := Graph.exists_of_mem_available? hav hd
    exact ⟨values, v, hoff, hv, hhosts, hexp⟩

/-- Whoever has its dependencies is not given any. -/
theorem Supplying.not_supplies {s : System} {x : Stimulus} {m d : Name} {n : Node} {y : Nat}
    (h : s.Supplying (s.apply x)) (hg : (s.apply x).container.graph.Coherent)
    (hn : (s.apply x).container.graph.nodes[m]? = some n)
    (hres : n.resolved = true → ∃ n, s.container.graph.nodes[m]? = some n ∧ n.resolved = true) :
    ¬s.Supplies x n.inbox d y := by
  rintro ⟨values, v, hoff, _⟩
  obtain ⟨m', n', hn', hi, hres', _, hno⟩ := h.offered hoff
  obtain rfl := hg.inboxes hn' hn hi
  obtain rfl := Option.some.inj (hn'.symm.trans hn)
  obtain ⟨k, hk, hk'⟩ := hres hres'
  simp [hno k hk] at hk'

/-- The dependencies that were given stay where they are. -/
theorem Supplying.hosts_iff {s s' : System} {m d : Name} {n n' : Node} (h : s.Supplying s')
    (hg : s.container.graph.Anchored) (hg' : s'.container.graph.Anchored)
    (hn : s.container.graph.nodes[m]? = some n) (hres : n.resolved = true)
    (hn' : s'.container.graph.nodes[m]? = some n') (hres' : n'.resolved = true)
    (hdep : n'.dependencies = n.dependencies) (hd : d ∈ n'.dependencies) (y : Nat) :
    s.container.graph.Hosts d y ↔ s'.container.graph.Hosts d y := by
  obtain ⟨k, hk, _⟩ := hg.anchored hn hres (hdep ▸ hd)
  obtain ⟨k', hk', _⟩ := hg'.anchored hn' hres' hd
  obtain ⟨k₀, hk₀, hi, _⟩ | ⟨hnone, _⟩ := h.nodes hk'
  · obtain rfl := Option.some.inj (hk.symm.trans hk₀)
    simp [Graph.Hosts, hk, hk', hi]
  · simp [hk] at hnone

theorem given {happened : List Stimulus} (hx : ∀ x ∈ happened, x ≠ .cancel) : Given happened := by
  refine run_induction ?_ (fun {happened x} ho hs h => ?_) hx
  · refine ⟨fun {m d n c} hn => ?_, fun _ _ => not_supplied_nil, fun _ => not_supplied_nil⟩
    simp [initial, run, Container.fresh, Graph.empty] at hn
  · have ho' := ho.step hs
    have hsup := ho.supplying hs
    have hrun := run_snoc initial happened x
    rw [hrun] at hs ho' hsup
    have hcoherent := ho'.consistent.ordered.coherent
    refine ⟨?_, ?_, ?_⟩
    · intro m d n c hn hc hr hres hd y
      rw [hrun] at hn hc ⊢
      rw [supplied_concat]
      rcases hsup.nodes hn with ⟨k, hk, hi, hdep, _⟩ | ⟨hnone, hlen⟩
      · cases hkres : k.resolved with
        | true =>
            obtain ⟨b, hb, hbr⟩ : ∃ b : Controller,
                (initial.run happened).controllers[n.inbox]? = some b ∧ b.state ≠ .removed := by
              refine (hsup.remains hc hr).resolve_right fun hlen => ?_
              obtain ⟨b, hb, _⟩ := ho.consistent.linked hk
              rw [← hi, List.getElem?_eq_none hlen] at hb
              cases hb
            have hold := h.resolved hk (hi ▸ hb) hbr hkres (hdep ▸ hd) y
            have hno := hsup.not_supplies (d := d) (y := y) hcoherent hn fun _ => ⟨k, hk, hkres⟩
            rw [hi] at hno ⊢
            rw [or_iff_left hno, hold]
            exact hsup.hosts_iff ho.consistent.ordered.toAnchored
              ho'.consistent.ordered.toAnchored hk hkres hn hres hdep hd y
        | false =>
            have hsupplies := hsup.supplies_iff hcoherent hn hc hr hres (fun k' hk' => by
              rw [← Option.some.inj (hk.symm.trans hk'), hkres]) hd y
            rw [or_iff_right, hsupplies]
            rw [hi]
            exact h.unresolved hk hkres
      · have hsupplies := hsup.supplies_iff hcoherent hn hc hr hres (by simp [hnone]) hd y
        rw [or_iff_right (h.fresh hlen), hsupplies]
    · intro m d n y hn hres
      rw [hrun] at hn
      rw [supplied_concat]
      rintro (hsupplied | hsupplies)
      · rcases hsup.nodes hn with ⟨k, hk, hi, _, hkres⟩ | ⟨_, hlen⟩
        · rw [hi] at hsupplied
          refine h.unresolved hk ?_ hsupplied
          by_contra hkr
          simp [hkres (by simpa using hkr)] at hres
        · exact h.fresh hlen hsupplied
      · exact hsup.not_supplies hcoherent hn (by simp [hres]) hsupplies
    · intro i d y hlen
      rw [hrun] at hlen
      rw [supplied_concat]
      rintro (hsupplied | ⟨values, v, hoff, _⟩)
      · exact h.fresh (Nat.le_trans hsup.length hlen) hsupplied
      · have hnone := List.getElem?_eq_none hlen
        simp [System.offers, hnone] at hoff

/-! ## Services that run -/

/-- In the course of a run, a controller invoked `start`, and its service is not removed yet. -/
structure Running (happened : List Stimulus) (i : Nat) (c : Controller) : Prop where
  controller : (initial.run happened).controllers[i]? = some c
  invoked : .injectAndStart ∈ initial.trace happened i
  present : c.state ≠ .removed

/-- Whoever was started has its dependencies, the very ones whose values it was given, and none of
them stops before it is removed. -/
structure KeepsOrder (happened : List Stimulus) : Prop where
  kept : ∀ {i : Nat} {d : Name} {c : Controller}, Running happened i c →
    d ∈ c.plan.dependencies → ∃ (y : Nat) (b : Controller),
      (initial.run happened).container.graph.Hosts d y ∧
      (initial.run happened).controllers[y]? = some b ∧
      (b.state = .started ∨ b.state = .draining) ∧ ∀ z, Supplied happened i d z ↔ z = y
  unstopped : ∀ {x : Stimulus} {i y : Nat} {d : Name} {c : Controller} {interrupted : Bool},
    .invokeStop interrupted ∈ (initial.run happened).effects x y → Running happened i c →
    d ∈ c.plan.dependencies → ¬Supplied happened i d y

variable {i y : Nat} {d : Name} {c : Controller}

theorem Running.kept (h : Running happened i c) (hx : ∀ x ∈ happened, x ≠ .cancel)
    (hd : d ∈ c.plan.dependencies) : ∃ (y : Nat) (b : Controller),
      (initial.run happened).container.graph.Hosts d y ∧
      (initial.run happened).controllers[y]? = some b ∧
      (b.state = .started ∨ b.state = .draining) ∧ ∀ z, Supplied happened i d z ↔ z = y := by
  have ho := orderly_run hx
  obtain ⟨m, n, hn, hi⟩ : ∃ m, (initial.run happened).container.graph.Hosts m i := by
    by_contra hno
    exact h.present (ho.consistent.gone h.controller fun m hm => hno ⟨m, hm⟩)
  subst hi
  obtain ⟨c', hc', hl⟩ := ho.consistent.linked hn
  obtain rfl := Option.some.inj (h.controller.symm.trans hc')
  have hwaiting : c.state ≠ .waiting := fun hw => ((hasRun hx).ran h.controller).unstarted hw h.invoked
  have hphase : 0 < c.state.phase := Nat.pos_of_ne_zero fun hp => hwaiting (State.phase_eq_zero.mp hp)
  have hres : n.resolved = true := hl.resolved c.state List.mem_cons_self hphase h.present
  rw [hl.dependencies] at hd
  obtain ⟨k, b, hk, hb, huse⟩ := ho.consistent.inUse hn hres hd
  refine ⟨k.inbox, b, ⟨k, hk, rfl⟩, hb, huse, fun z => ?_⟩
  rw [(given hx).resolved hn h.controller h.present hres hd z]
  constructor
  · rintro ⟨k', hk', rfl⟩
    exact Option.some.inj (hk'.symm.trans hk) ▸ rfl
  · rintro rfl
    exact ⟨k, hk, rfl⟩

theorem Running.unstopped {x : Stimulus} {interrupted : Bool} (h : Running happened i c)
    (hx : ∀ x ∈ happened, x ≠ .cancel) (hd : d ∈ c.plan.dependencies)
    (he : .invokeStop interrupted ∈ (initial.run happened).effects x y) :
    ¬Supplied happened i d y := by
  intro hs
  obtain ⟨b, rfl, hb, htake, he', happly⟩ := take_of_effects he
  have hy : y < (initial.run happened).controllers.length := (List.getElem?_eq_some_iff.mp hb).1
  have hrun : initial.run (happened ++ [.move (.take y)]) =
      (initial.run happened).applyTurn y (b.take y (initial.run happened).world) := by
    rw [run_snoc, happly]
  have ha := applies_applyTurn (t := b.take y (initial.run happened).world) hy
  rw [← hrun] at ha
  have hstop : ((b.take y (initial.run happened).world).final
      (initial.run happened).tasks.length).state = .stopping := by
    have hadv := advances_take htake y (initial.run happened).tasks.length
      (initial.run happened).world
    generalize Turn.final _ _ = b' at hadv ⊢
    generalize b'.state = next at hadv ⊢
    generalize b.effects = effects at hadv he'
    cases hadv with
    | stays => simp at he'
    | moves hm => exact hm.of_invokeStop he'
  have hx' : ∀ z ∈ happened ++ [.move (.take y)], z ≠ .cancel := by
    intro z hz
    rcases List.mem_append.mp hz with hz | hz
    · exact hx z hz
    · simp [List.mem_singleton.mp hz]
  -- one step later, whoever was given the value runs still, and its dependency stops
  obtain ⟨c', hrunning, hd'⟩ : ∃ c', Running (happened ++ [.move (.take y)]) i c' ∧
      d ∈ c'.plan.dependencies := by
    have hinvoked : .injectAndStart ∈ initial.trace (happened ++ [.move (.take y)]) i := by
      rw [trace_append]
      exact List.mem_append_left _ h.invoked
    by_cases hi : y = i
    · subst hi
      obtain rfl := Option.some.inj (hb.symm.trans h.controller)
      refine ⟨_, ⟨by rw [ha.controllers, List.getElem?_set_self hy], hinvoked, ?_⟩, ?_⟩
      · rw [hstop]
        decide
      · rw [plan_take htake]
        exact hd
    · refine ⟨c, ⟨?_, hinvoked, h.present⟩, hd⟩
      rw [ha.controllers, List.getElem?_set_ne hi]
      exact h.controller
  obtain ⟨y', b', _, hb', huse, hiff⟩ := hrunning.kept hx' hd'
  obtain rfl := (hiff y).mp (supplied_concat.mpr (.inl hs))
  rw [ha.controllers, List.getElem?_set_self hy] at hb'
  rw [← Option.some.inj hb', hstop] at huse
  simp at huse

/-- Whatever happens in whatever order, dependencies outlive whoever was started against them. -/
theorem keepsOrder_run (hx : ∀ x ∈ happened, x ≠ .cancel) : KeepsOrder happened := by
  refine ⟨?_, ?_⟩
  · exact fun h hd => h.kept hx hd
  · exact fun he h hd => h.unstopped hx hd he

theorem keepsOrder_pairStarts : (∀ x ∈ pairStarts, x ≠ .cancel) ∧
    (initial.run pairStarts).controllers.map (·.state) = [.started, .started] ∧
    .injectAndStart ∈ initial.trace pairStarts 1 ∧ KeepsOrder pairStarts := by
  have hx : ∀ x ∈ pairStarts, x ≠ .cancel := by simp [pairStarts]
  exact ⟨hx, by decide +kernel, by decide +kernel, keepsOrder_run hx⟩

end System

end ServiceHost
