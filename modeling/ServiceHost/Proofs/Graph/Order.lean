import ServiceHost.Proofs.Graph.Reports

/-! # Dependencies stay ordered

As long as controllers report their states in the order of the lifecycle, and none leaves its
dependents behind, every service that was given its dependencies keeps them, and no two services
wait for each other to be removed. -/

namespace ServiceHost

/-- Started and not stopped yet: what it exposes may be in use. -/
def State.InUse (s : State) : Prop := s = .started ∨ s = .draining

instance (s : State) : Decidable s.InUse := inferInstanceAs (Decidable (_ ∨ _))

theorem State.InUse.phase {s : State} (h : s.InUse) : 2 ≤ s.phase := by
  rcases h with rfl | rfl <;> decide

namespace Graph

/-- A report that a controller may make of a service with this node: of a later state, with its
value once it has started, and not past draining while a dependent is awaited. -/
structure Lawful (n : Node) (state : State) (value : Option Value) : Prop where
  later : n.state.phase < state.phase
  exposes : state = .started → value.isSome = true
  delivered : state ≠ .removed → n.resolved = true
  drains : n.state.InUse → ¬n.Released → state = .draining

/-- The services that were given their dependencies have them still, each of them being awaited by
those it stops, and the dependencies of such a service come before it in some order. -/
structure Anchored (g : Graph) : Prop where
  coherent : g.Coherent
  exposing : ∀ {m : Name} {n : Node}, g.nodes[m]? = some n → n.value.isSome = true →
    n.state = .started
  exposed : ∀ {m : Name} {n : Node}, g.nodes[m]? = some n → n.state = .started →
    n.stopping = false → n.value.isSome = true
  resolved : ∀ {m : Name} {n : Node}, g.nodes[m]? = some n → n.state ≠ .waiting →
    n.resolved = true
  leaving : ∀ {m : Name} {n : Node}, g.nodes[m]? = some n → n.state.Leaving → n.stopping = true
  anchored : ∀ {m d : Name} {n : Node}, g.nodes[m]? = some n → n.resolved = true →
    d ∈ n.dependencies → ∃ k : Node, g.nodes[d]? = some k ∧ k.state.InUse ∧
      (k.stopping = true → ∃ p, k.pendingDependents = some p ∧ m ∈ p)
  ranked : ∃ rank : Name → Nat, ∀ {m d : Name} {n : Node}, g.nodes[m]? = some n →
    n.resolved = true → d ∈ n.dependencies → rank d < rank m

/-- Besides, a service that was not given its dependencies lacks one of them, unless it stops. -/
structure Ordered (g : Graph) : Prop extends g.Anchored where
  missing : ∀ {m : Name} {n : Node}, g.nodes[m]? = some n → n.resolved = false →
    n.stopping = false → ∃ d ∈ n.dependencies, g.exposed? d = none

/-- What a node notes down of its service fits together. -/
structure Sound (n : Node) : Prop where
  exposing : n.value.isSome = true → n.state = .started
  exposed : n.state = .started → n.stopping = false → n.value.isSome = true
  resolved : n.state ≠ .waiting → n.resolved = true
  leaving : n.state.Leaving → n.stopping = true

variable {g g' : Graph} {a m d : Name} {n k : Node}

/-! ## Anchored graphs -/

theorem Sound.strike (h : Sound n) (a : Name) : Sound (n.strike a) :=
  ⟨h.exposing, h.exposed, h.resolved, h.leaving⟩

theorem Anchored.sound (hg : g.Anchored) (hn : g.nodes[a]? = some n) : Sound n :=
  ⟨hg.exposing hn, hg.exposed hn, hg.resolved hn, hg.leaving hn⟩

/-- An operation that gives no service its dependencies keeps a graph anchored if it lets those
depended on be in use. -/
theorem Anchored.of_nodes (hg : g.Anchored) (hc : g'.Coherent)
    (hsound : ∀ {m : Name} {n' : Node}, g'.nodes[m]? = some n' → Sound n')
    (hold : ∀ {m : Name} {n' : Node}, g'.nodes[m]? = some n' → n'.resolved = true →
      ∃ n, g.nodes[m]? = some n ∧ n.resolved = true ∧ n'.dependencies = n.dependencies)
    (hanchored : ∀ {m d : Name} {n' : Node}, g'.nodes[m]? = some n' → n'.resolved = true →
      d ∈ n'.dependencies → ∃ k : Node, g'.nodes[d]? = some k ∧ k.state.InUse ∧
        (k.stopping = true → ∃ p, k.pendingDependents = some p ∧ m ∈ p)) : g'.Anchored where
  coherent := hc
  exposing := fun hm => (hsound hm).exposing
  exposed := fun hm => (hsound hm).exposed
  resolved := fun hm => (hsound hm).resolved
  leaving := fun hm => (hsound hm).leaving
  anchored := hanchored
  ranked := by
    obtain ⟨rank, hrank⟩ := hg.ranked
    refine ⟨rank, fun {m d n'} hm hr hd => ?_⟩
    obtain ⟨n, hn, hnr, hdeps⟩ := hold hm hr
    exact hrank hn hnr (hdeps ▸ hd)

/-- Nobody was given a service that has not started. -/
theorem Anchored.not_mem_of_early (hg : g.Anchored) (hn : g.nodes[a]? = some n)
    (hearly : n.state.phase < 2) (hk : g.nodes[m]? = some k) (hr : k.resolved = true) :
    a ∉ k.dependencies := by
  intro ha
  obtain ⟨j, hj, huse, _⟩ := hg.anchored hk hr ha
  rw [hn, Option.some.injEq] at hj
  subst hj
  exact absurd huse.phase (Nat.not_le.mpr hearly)

/-! ## Exposure and order -/

/-- Whoever is exposed has started, with its dependencies given. -/
theorem Anchored.of_exposed? (hg : g.Anchored) {d : Name} {v : Value} (h : g.exposed? d = some v) :
    ∃ k : Node, g.nodes[d]? = some k ∧ k.value = some v ∧ k.stopping = false ∧
      k.state = .started ∧ k.resolved = true := by
  obtain ⟨k, hk, h⟩ := Option.bind_eq_some_iff.mp h
  split at h
  · cases h
  · next hs =>
      have hstate := hg.exposing hk (by simp [h])
      exact ⟨k, hk, h, by simpa using hs, hstate, hg.resolved hk (by simp [hstate])⟩

theorem exposed?_of_canResolve (h : g.canResolve n = true) {d : Name} (hd : d ∈ n.dependencies) :
    ∃ v, g.exposed? d = some v := by
  simp only [canResolve, Bool.and_eq_true] at h
  by_contra hc
  have hnone : g.available? n.dependencies = none :=
    available?_eq_none.mpr ⟨d, hd, by simpa [Option.eq_none_iff_forall_ne_some] using hc⟩
  simp [hnone] at h

theorem exists_of_not_canResolve (h : g.canResolve n = false) (hr : n.resolved = false)
    (hs : n.stopping = false) : ∃ d ∈ n.dependencies, g.exposed? d = none := by
  rw [← available?_eq_none]
  simpa [canResolve, hr, hs] using h

theorem exists_rank_above (rank : Name → Nat) (names : List Name) :
    ∃ b, ∀ d ∈ names, rank d < b := by
  induction names with
  | nil => exact ⟨0, by simp⟩
  | cons m names ih =>
      obtain ⟨b, hb⟩ := ih
      refine ⟨max (rank m + 1) b, fun d hd => ?_⟩
      rcases List.mem_cons.mp hd with rfl | hd
      · omega
      · have := hb d hd
        omega

open Classical in
/-- Services given their dependencies later may be placed behind all of those. -/
theorem exists_rank_behind (rank : Name → Nat) (deps : Name → Names) (late : Name → Prop) :
    ∃ rank' : Name → Nat, (∀ m, ¬late m → rank' m = rank m) ∧
      ∀ m, late m → ∀ d ∈ deps m, ¬late d → rank' d < rank' m := by
  choose bound hbound using fun m => exists_rank_above rank (deps m).toList
  refine ⟨fun m => if late m then bound m else rank m, fun m hm => if_neg hm, ?_⟩
  intro m hm d hd hnd
  simpa [hm, hnd] using hbound m d (by simpa using hd)

/-! ## A service is stopped -/

/-- A service that stops, or is stopping already, may do so in any state in which those that were
given it find it, and in any state at all if there are none. -/
theorem Ordered.stop (hg : g.Ordered) (hn : g.nodes[a]? = some n) (state : State)
    (hres : state ≠ .waiting → n.resolved = true)
    (hanchor : ∀ {m : Name} {k : Node}, g.nodes[m]? = some k → k.resolved = true →
      a ∈ k.dependencies → state.InUse)
    (hu : g.Updates g' fun x k =>
      if a = x then Node.stop { n with state } (g.dependentsOf a) else k)
    (hc : g'.Coherent) : g'.Ordered := by
  have hvalue : (Node.stop { n with state } (g.dependentsOf a)).value = none :=
    Node.stop_value (n := { n with state }) (hg.coherent.value (n := n) hn) _
  have hexposed : ∀ d, g.exposed? d = none → g'.exposed? d = none := by
    intro d hd
    rw [exposed?_eq, hu.nodes]
    cases hk : g.nodes[d]? with
    | none => rfl
    | some k =>
        by_cases hd' : a = d
        · simp [hd']
        · simpa [exposed?_eq, hk, hd'] using hd
  have hold : ∀ {m : Name} {n' : Node}, g'.nodes[m]? = some n' → n'.resolved = true →
      ∃ k, g.nodes[m]? = some k ∧ k.resolved = true ∧ n'.dependencies = k.dependencies := by
    intro m n' hm hr
    rcases hu.eq_or_of_node hm with ⟨rfl, rfl⟩ | ⟨_, hk⟩
    · exact ⟨n, hn, by simpa using hr, by simp⟩
    · exact ⟨n', hk, hr, rfl⟩
  refine ⟨hg.of_nodes hc ?_ hold ?_, ?_⟩
  · intro m n' hm
    rcases hu.eq_or_of_node hm with ⟨rfl, rfl⟩ | ⟨_, hk⟩
    · exact ⟨by simp [hvalue], by simp, by simpa using hres, by simp⟩
    · exact hg.sound hk
  · intro m d n' hm hr hd
    obtain ⟨k, hk, hkr, hdeps⟩ := hold hm hr
    rw [hdeps] at hd
    obtain ⟨j, hj, huse, hpend⟩ := hg.anchored hk hkr hd
    refine ⟨_, by rw [hu.nodes, hj]; rfl, ?_⟩
    by_cases had : a = d
    · subst had
      rw [hn, Option.some.injEq] at hj
      subst hj
      simp only [if_true, Node.stop_state]
      refine ⟨hanchor hk hkr hd, fun _ => ?_⟩
      cases hs : n.stopping with
      | true => simpa [Node.stop, hs] using hpend hs
      | false =>
          have hmem : m ∈ g.dependentsOf a := hg.coherent.mem_dependentsOf.mpr ⟨k, hk, hd⟩
          have hne : g.dependentsOf a ≠ [] := List.ne_nil_of_mem hmem
          refine ⟨Names.ofList (g.dependentsOf a), ?_, Names.mem_ofList.mpr hmem⟩
          simp [Node.stop, Node.stopped, hne]
    · simpa [had] using ⟨huse, hpend⟩
  · intro m n' hm hr hs
    rcases hu.eq_or_of_node hm with ⟨rfl, rfl⟩ | ⟨_, hk⟩
    · simp at hs
    · obtain ⟨d, hd, he⟩ := hg.missing hk hr hs
      exact ⟨d, hd, hexposed d he⟩

theorem Ordered.requestRemoval (hg : g.Ordered) (a : Name) : (g.requestRemoval a).1.Ordered := by
  cases hn : g.nodes[a]? with
  | none => rwa [requestRemoval_of_none hn]
  | some n =>
      apply hg.stop hn n.state (hg.resolved hn)
      · intro m k hk hr ha
        obtain ⟨j, hj, huse, _⟩ := hg.anchored hk hr ha
        rw [hn, Option.some.injEq] at hj
        exact hj ▸ huse
      · rw [requestRemoval_fst]
        apply (hg.coherent.beginStopping_updates a).congr
        intro x k hk
        split
        · next h => subst h; rw [hn, Option.some.injEq] at hk; rw [hk]
        · rfl
      · exact hg.coherent.requestRemoval a

/-- No service is given its dependencies while one of them is not in use, and none is left behind
by a lawful report. -/
theorem Ordered.inUse_of_dependent (hg : g.Ordered) (hn : g.nodes[a]? = some n) {m : Name}
    {k : Node} (hk : g.nodes[m]? = some k) (hr : k.resolved = true) (ha : a ∈ k.dependencies) :
    n.state.InUse ∧ ¬n.Released := by
  obtain ⟨j, hj, huse, hpend⟩ := hg.anchored hk hr ha
  rw [hn, Option.some.injEq] at hj
  subst hj
  refine ⟨huse, fun h => ?_⟩
  obtain ⟨p, hp, _⟩ := hpend h.1
  simp [h.2] at hp

/-! ## Reports -/

theorem Ordered.report_stop (hg : g.Ordered) (hn : g.nodes[a]? = some n) {state : State}
    {value : Option Value} (hl : Lawful n state value) (h : state.Leaving)
    (hr : state ≠ .removed) : (g.report a state value).1.Ordered := by
  apply hg.stop hn state (fun _ => hl.delivered hr)
  · intro m k hk hkr ha
    obtain ⟨huse, hrel⟩ := hg.inUse_of_dependent hn hk hkr ha
    exact .inr (hl.drains huse hrel)
  · exact hg.coherent.report_stop_updates hn h hr value
  · exact hg.coherent.report a state value

theorem Ordered.report_removed (hg : g.Ordered) (hn : g.nodes[a]? = some n)
    {value : Option Value} (hl : Lawful n .removed value) :
    (g.report a .removed value).1.Ordered := by
  have hnodes : ∀ {m : Name} {k : Node}, a ≠ m → g.nodes[m]? = some k →
      (g.report a .removed value).1.nodes[m]? = some (k.strike a) := by
    intro m k hm hk
    rw [hg.coherent.report_removed_nodes hn, if_neg hm, hk, Option.map_some]
  -- whoever was given the removed service is gone
  have hfree : ∀ {m : Name} {k : Node}, g.nodes[m]? = some k → k.resolved = true →
      a ∉ k.dependencies := by
    intro m k hk hr ha
    obtain ⟨huse, hrel⟩ := hg.inUse_of_dependent hn hk hr ha
    exact absurd (hl.drains huse hrel) (by decide)
  refine ⟨hg.of_nodes (hg.coherent.report a _ _) ?_ ?_ ?_, ?_⟩
  · intro m n' hm
    obtain ⟨_, k, hk, rfl⟩ := hg.coherent.exists_of_report_removed hn hm
    exact (hg.sound hk).strike a
  · intro m n' hm hr
    obtain ⟨_, k, hk, rfl⟩ := hg.coherent.exists_of_report_removed hn hm
    exact ⟨k, hk, hr, rfl⟩
  · intro m d n' hm hr hd
    obtain ⟨ham, k, hk, rfl⟩ := hg.coherent.exists_of_report_removed hn hm
    obtain ⟨j, hj, huse, hpend⟩ := hg.anchored hk hr hd
    have had : a ≠ d := fun h => hfree hk hr (h ▸ hd)
    refine ⟨j.strike a, hnodes had hj, huse, fun hs => ?_⟩
    obtain ⟨p, hp, hmp⟩ := hpend hs
    have hmem : m ∈ p.erase a := by simp [Std.ExtTreeSet.mem_erase, ham, hmp]
    refine ⟨p.erase a, ?_, hmem⟩
    have hne : (p.erase a).isEmpty = false := by
      rw [Std.ExtTreeSet.isEmpty_eq_false_iff]
      intro he
      simp [he] at hmem
    simp only [Node.strike, hp, Option.bind_some, hne, Bool.false_eq_true, if_false]
  · intro m n' hm hr hs
    obtain ⟨_, k, hk, rfl⟩ := hg.coherent.exists_of_report_removed hn hm
    obtain ⟨d, hd, he⟩ := hg.missing hk hr hs
    refine ⟨d, hd, ?_⟩
    rw [exposed?_eq, hg.coherent.report_removed_nodes hn]
    split
    · rfl
    · cases hj : g.nodes[d]? with
      | none => rfl
      | some j => simpa [exposed?_eq, hj, Node.strike] using he

/-- A state before draining may be noted down as long as nothing depends on it: nobody is exposed
by it. -/
theorem Ordered.note (hg : g.Ordered) (hn : g.nodes[a]? = some n) {state : State}
    (hearly : n.state.phase < 2) (hres : n.resolved = true) (hleave : ¬state.Leaving)
    (hstop : state = .started → n.stopping = true) : (g.note a n state).Ordered := by
  have hu := note_updates hn state
  have hvalue : n.value = none := by
    by_contra hc
    have hstate := hg.exposing hn (Option.isSome_iff_ne_none.mpr hc)
    simp [hstate, State.phase] at hearly
  -- the node there was, which differs in its state at most
  have hold : ∀ {m : Name} {n' : Node}, (g.note a n state).nodes[m]? = some n' →
      ∃ k, g.nodes[m]? = some k ∧ n' = { k with state := n'.state } := by
    intro m n' hm
    rcases hu.eq_or_of_node hm with ⟨rfl, rfl⟩ | ⟨_, hk⟩
    · exact ⟨n, hn, rfl⟩
    · exact ⟨n', hk, rfl⟩
  have hexposed : ∀ d, (g.note a n state).exposed? d = g.exposed? d := by
    intro d
    rw [exposed?_eq, exposed?_eq, hu.nodes]
    by_cases had : a = d
    · subst had
      simp [hn]
    · simp [had]
  refine ⟨hg.of_nodes (hg.coherent.setState hn state) ?_ ?_ ?_, ?_⟩
  · intro m n' hm
    rcases hu.eq_or_of_node hm with ⟨rfl, rfl⟩ | ⟨_, hk⟩
    · refine ⟨by simp [hvalue], fun hs hns => ?_, fun _ => hres, fun h => absurd h hleave⟩
      simp [hstop hs] at hns
    · exact hg.sound hk
  · intro m n' hm hr
    obtain ⟨k, hk, he⟩ := hold hm
    rw [he] at hr ⊢
    exact ⟨k, hk, hr, rfl⟩
  · intro m d n' hm hr hd
    obtain ⟨k, hk, he⟩ := hold hm
    rw [he] at hr hd
    obtain ⟨j, hj, h⟩ := hg.anchored hk hr hd
    have had : a ≠ d := fun h => hg.not_mem_of_early hn hearly hk hr (h ▸ hd)
    exact ⟨j, by rw [setNode_nodes, if_neg had, hj], h⟩
  · intro m n' hm hr hs
    obtain ⟨k, hk, he⟩ := hold hm
    rw [he] at hr hs ⊢
    simpa [hexposed] using hg.missing hk hr hs

/-! ## Delivery -/

theorem Anchored.not_unresolved {m : Name} {k : Node} (hk : g.nodes[m]? = some k)
    (hr : k.resolved = true) : ¬∃ k, g.nodes[m]? = some k ∧ k.resolved = false := by
  rintro ⟨k', hk', hr'⟩
  rw [hk, Option.some.injEq] at hk'
  simp [← hk', hr] at hr'

/-- What a resolved service depends on was given its dependencies before. -/
theorem Anchored.resolved_dependency (hg : g.Anchored) {m d : Name} {k : Node}
    (hk : g.nodes[m]? = some k) (hr : k.resolved = true) (hd : d ∈ k.dependencies) :
    ∃ j : Node, g.nodes[d]? = some j ∧ j.resolved = true := by
  obtain ⟨j, hj, huse, _⟩ := hg.anchored hk hr hd
  refine ⟨j, hj, hg.resolved hj ?_⟩
  rintro hw
  simp [hw, State.InUse] at huse

/-- Delivery anchors whom it reaches. -/
theorem Anchored.resolveAll (hg : g.Anchored) (names : List Name) :
    (g.resolveAll names).1.Anchored := by
  have hu := resolveAll_updates g names
  -- whom it reaches
  let waits (m : Name) (k : Node) : Bool := decide (m ∈ names) && g.canResolve k
  have hold : ∀ {m : Name} {n' : Node}, (g.resolveAll names).1.nodes[m]? = some n' →
      ∃ k, g.nodes[m]? = some k ∧ n' = { k with resolved := k.resolved || waits m k } := by
    intro m n' hm
    obtain ⟨k, hk, rfl⟩ := hu.exists_of_node hm
    refine ⟨k, hk, ?_⟩
    by_cases hm : m ∈ names <;> simp [hm, grant, waits]
  have hnew : ∀ {m : Name} {k : Node}, g.nodes[m]? = some k →
      (g.resolveAll names).1.nodes[m]? =
        some { k with resolved := k.resolved || waits m k } := by
    intro m k hk
    rw [hu.nodes, hk, Option.map_some]
    by_cases hm : m ∈ names <;> simp [hm, grant, waits]
  have hgiven : ∀ {m d : Name} {k : Node}, waits m k = true → d ∈ k.dependencies →
      ∃ j : Node, g.nodes[d]? = some j ∧ j.stopping = false ∧ j.state = .started ∧
        j.resolved = true := by
    intro m d k hw hd
    obtain ⟨v, hv⟩ := exposed?_of_canResolve (Bool.and_eq_true_iff.mp hw).2 hd
    obtain ⟨j, hj, _, hjs, hjst, hjr⟩ := hg.of_exposed? hv
    exact ⟨j, hj, hjs, hjst, hjr⟩
  have hsound : ∀ {m : Name} {n' : Node}, (g.resolveAll names).1.nodes[m]? = some n' →
      Sound n' := by
    intro m n' hm
    obtain ⟨k, hk, rfl⟩ := hold hm
    obtain ⟨hexposing, hexposed, hresolved, hleaving⟩ := hg.sound hk
    exact ⟨hexposing, hexposed, fun hs => by simp [hresolved hs], hleaving⟩
  refine ⟨hg.coherent.resolveAll names, fun hm => (hsound hm).exposing,
    fun hm => (hsound hm).exposed, fun hm => (hsound hm).resolved, fun hm => (hsound hm).leaving,
    ?_, ?_⟩
  · intro m d n' hm hr hd
    obtain ⟨k, hk, rfl⟩ := hold hm
    rcases Bool.or_eq_true_iff.mp hr with hr | hw
    · obtain ⟨j, hj, huse, hpend⟩ := hg.anchored hk hr hd
      exact ⟨_, hnew hj, huse, hpend⟩
    · obtain ⟨j, hj, hjs, hjst, _⟩ := hgiven hw hd
      exact ⟨_, hnew hj, .inl hjst, fun h => by simp [hjs] at h⟩
  · obtain ⟨rank, hrank⟩ := hg.ranked
    obtain ⟨rank', hkeep, hlate⟩ := exists_rank_behind rank
      (fun m => (g.nodes[m]?.map Node.dependencies).getD ∅)
      fun m => ∃ k, g.nodes[m]? = some k ∧ k.resolved = false
    refine ⟨rank', fun {m d n'} hm hr hd => ?_⟩
    obtain ⟨k, hk, rfl⟩ := hold hm
    cases hkr : k.resolved with
    | true =>
        obtain ⟨j, hj, hjr⟩ := hg.resolved_dependency hk hkr hd
        rw [hkeep d (not_unresolved hj hjr), hkeep m (not_unresolved hk hkr)]
        exact hrank hk hkr hd
    | false =>
        have hw : waits m k = true := by simpa [hkr] using hr
        obtain ⟨j, hj, _, _, hjr⟩ := hgiven hw hd
        exact hlate m ⟨k, hk, hkr⟩ d (by simpa [hk] using hd) (not_unresolved hj hjr)

/-- After delivery a service lacks a dependency if it did before, or if it was looked at. -/
theorem Anchored.ordered_resolveAll (hg : g.Anchored) {names : List Name}
    (h : ∀ {m : Name} {n : Node}, m ∉ names → g.nodes[m]? = some n → n.resolved = false →
      n.stopping = false → ∃ d ∈ n.dependencies, g.exposed? d = none) :
    (g.resolveAll names).1.Ordered := by
  refine ⟨hg.resolveAll names, fun {m n'} hm hr hs => ?_⟩
  obtain ⟨k, hk, rfl⟩ := (resolveAll_updates g names).exists_of_node hm
  simp only [exposed?_resolveAll]
  split at hr
  · next hmem =>
      simp only [hmem, if_true] at hs ⊢
      simp only [grant, Bool.or_eq_false_iff] at hr
      exact exists_of_not_canResolve (n := k) hr.2 hr.1 hs
  · next hmem =>
      simp only [hmem, if_false] at hs ⊢
      exact h hmem hk hr hs

theorem resolveAll_singleton (g : Graph) (m : Name) :
    (g.resolveAll [m]).1 = (g.resolve m).1 := rfl

/-! ## A start is reported -/

theorem exposed?_present (hn : g.nodes[a]? = some n) (hs : n.stopping = false) (v : Value)
    (d : Name) : (g.present a n v).exposed? d = if a = d then some v else g.exposed? d := by
  rw [exposed?_eq, (present_updates hn v).nodes]
  by_cases hd : a = d
  · subst hd
    simp [hn, hs]
  · simp [hd, exposed?_eq]

theorem Ordered.present (hg : g.Ordered) (hn : g.nodes[a]? = some n) {v : Value}
    (hl : Lawful n .started (some v)) (hs : n.stopping = false) : (g.present a n v).Anchored := by
  have hu := present_updates hn v
  have hres : n.resolved = true := hl.delivered (by decide)
  have hold : ∀ {m : Name} {n' : Node}, (g.present a n v).nodes[m]? = some n' →
      n'.resolved = true →
      ∃ k, g.nodes[m]? = some k ∧ k.resolved = true ∧ n'.dependencies = k.dependencies := by
    intro m n' hm hr
    rcases hu.eq_or_of_node hm with ⟨rfl, rfl⟩ | ⟨_, hk⟩
    · exact ⟨n, hn, hr, rfl⟩
    · exact ⟨n', hk, hr, rfl⟩
  refine hg.of_nodes (hu.coherent hg.coherent ?_ ?_) ?_ hold ?_
  · intro x k hk
    have := hg.coherent.value hk
    split <;> simp_all
  · intro x k p hk
    have := hg.coherent.pending (p := p) hk
    split <;> simp_all
  · intro m n' hm
    rcases hu.eq_or_of_node hm with ⟨rfl, rfl⟩ | ⟨_, hk⟩
    · exact ⟨fun _ => rfl, fun _ _ => rfl, fun _ => hres, by simp [State.Leaving, State.phase]⟩
    · exact hg.sound hk
  · intro m d n' hm hr hd
    obtain ⟨k, hk, hkr, hdeps⟩ := hold hm hr
    rw [hdeps] at hd
    obtain ⟨j, hj, h⟩ := hg.anchored hk hkr hd
    have had : a ≠ d := fun h => hg.not_mem_of_early hn hl.later hk hkr (h ▸ hd)
    exact ⟨j, by rw [present_nodes, if_neg had, hj], h⟩

/-- A service is exposed once it has started, and whoever waited for nothing else is given what it
depends on. -/
theorem Ordered.report_started (hg : g.Ordered) (hn : g.nodes[a]? = some n) {v : Value}
    (hl : Lawful n .started (some v)) (hs : n.stopping = false) :
    (g.report a .started (some v)).1.Ordered := by
  rw [Graph.report_started hn hs]
  apply (hg.present hn hl hs).ordered_resolveAll
  intro m k hmem hk hr hks
  have ham : a ≠ m := by
    rintro rfl
    have hres : n.resolved = true := hl.delivered (by decide)
    simp only [present_nodes, if_true, Option.some.injEq] at hk
    simp [← hk, hres] at hr
  rw [present_nodes, if_neg ham] at hk
  obtain ⟨d, hd, he⟩ := hg.missing hk hr hks
  have had : a ≠ d := by
    rintro rfl
    exact hmem (hg.coherent.mem_dependentsOf.mpr ⟨k, hk, hd⟩)
  exact ⟨d, hd, by rw [exposed?_present hn hs, if_neg had, he]⟩

/-- A report a controller may make keeps the dependencies ordered. -/
theorem Ordered.report (hg : g.Ordered) (hn : g.nodes[a]? = some n) {state : State}
    {value : Option Value} (hl : Lawful n state value) : (g.report a state value).1.Ordered := by
  by_cases hleave : state.Leaving
  · by_cases hr : state = .removed
    · subst hr
      exact hg.report_removed hn hl
    · exact hg.report_stop hn hl hleave hr
  · have hphase := hl.later
    have hnot : state.phase ≤ 2 := Nat.lt_succ_iff.mp (Nat.not_le.mp hleave)
    have hres : n.resolved = true := hl.delivered (by rintro rfl; exact hleave (by decide))
    by_cases hstarted : state = .started
    · subst hstarted
      obtain ⟨v, rfl⟩ := Option.isSome_iff_exists.mp (hl.exposes rfl)
      cases hs : n.stopping with
      | true =>
          rw [report_started_of_not hn (.inl hs)]
          exact hg.note hn hphase hres hleave fun _ => hs
      | false => exact hg.report_started hn hl hs
    · have hearly : state.phase < 2 := by
        cases state <;> simp_all [State.phase, State.Leaving]
      rw [report_early hn hearly]
      exact hg.note hn (by omega) hres hleave fun h => absurd h hstarted

/-! ## Registration -/

theorem Ordered.enter (hg : g.Ordered) {r : Registration} (hr : g.nodes[r.name]? = none)
    {i : Inbox} (hi : ∀ m, ¬g.Hosts m i) : (g.enter r i).Anchored := by
  have hold : ∀ {m : Name} {k : Node}, (g.enter r i).nodes[m]? = some k →
      k = r.node i ∨ g.nodes[m]? = some k := by
    intro m k hm
    rw [enter_nodes] at hm
    split at hm
    · exact .inl (Option.some.inj hm).symm
    · exact .inr hm
  have hgiven : ∀ {m : Name} {k : Node}, (g.enter r i).nodes[m]? = some k → k.resolved = true →
      g.nodes[m]? = some k := by
    intro m k hm hkr
    refine (hold hm).resolve_left ?_
    rintro rfl
    simp [Registration.node] at hkr
  refine hg.of_nodes (hg.coherent.enter hr hi) ?_ (fun hm hkr => ⟨_, hgiven hm hkr, hkr, rfl⟩) ?_
  · intro m k hm
    rcases hold hm with rfl | hk
    · exact ⟨by simp [Registration.node], by simp [Registration.node],
        by simp [Registration.node], by simp [Registration.node, State.Leaving, State.phase]⟩
    · exact hg.sound hk
  · intro m d k hm hkr hd
    obtain ⟨j, hj, h⟩ := hg.anchored (hgiven hm hkr) hkr hd
    have hrd : r.name ≠ d := by
      rintro rfl
      simp [hr] at hj
    exact ⟨j, by rw [enter_nodes, if_neg hrd, hj], h⟩

theorem Ordered.register (hg : g.Ordered) {r : Registration} (hr : g.nodes[r.name]? = none)
    {i : Inbox} (hi : ∀ m, ¬g.Hosts m i) : (g.register r i).1.Ordered := by
  rw [register_fst, ← resolveAll_singleton]
  apply (hg.enter hr hi).ordered_resolveAll
  intro m k hmem hk hkr hks
  have hrm : r.name ≠ m := by simpa [eq_comm] using hmem
  rw [enter_nodes, if_neg hrm] at hk
  simpa [exposed?_enter hr] using hg.missing hk hkr hks

theorem ordered_empty : Ordered empty := by
  have hno : ∀ {x : Name} {n : Node}, empty.nodes[x]? ≠ some n := by
    intro x n
    simp [empty]
  refine ⟨⟨coherent_empty, ?_, ?_, ?_, ?_, ?_, ⟨fun _ => 0, ?_⟩⟩, ?_⟩
  all_goals
    intros
    exact absurd (by assumption) hno

end Graph

end ServiceHost
