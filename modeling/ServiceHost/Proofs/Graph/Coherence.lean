import ServiceHost.Proofs.Graph.Delivery
import ServiceHost.Proofs.Graph.Stopping

/-! # Every operation keeps the graph coherent

Registration, a request to stop and a report, whatever state is reported, keep the index of
dependents exact and the awaited dependents installed. -/

namespace ServiceHost

/-- What becomes of a service that is told to stop, or is stopping already. -/
def Node.stop (n : Node) (dependents : List Name) : Node :=
  if n.stopping then n else n.stopped dependents

@[simp] theorem Node.stop_inbox (n : Node) (l : List Name) : (n.stop l).inbox = n.inbox := by
  unfold stop; split <;> rfl

@[simp] theorem Node.stop_dependencies (n : Node) (l : List Name) :
    (n.stop l).dependencies = n.dependencies := by
  unfold stop; split <;> rfl

@[simp] theorem Node.stop_state (n : Node) (l : List Name) : (n.stop l).state = n.state := by
  unfold stop; split <;> rfl

@[simp] theorem Node.stop_resolved (n : Node) (l : List Name) :
    (n.stop l).resolved = n.resolved := by
  unfold stop; split <;> rfl

@[simp] theorem Node.stop_stopping (n : Node) (l : List Name) : (n.stop l).stopping = true := by
  unfold stop; split
  · assumption
  · rfl

theorem Node.stop_value {n : Node} (h : n.stopping = true → n.value = none) (l : List Name) :
    (n.stop l).value = none := by
  unfold stop; split
  · next hs => exact h hs
  · rfl

/-- Stopping a service releases it if nobody depends on it. -/
theorem Node.stop_released (n : Node) (l : List Name) :
    (n.stop l).Released ↔ n.Released ∨ (n.stopping = false ∧ l = []) := by
  cases hs : n.stopping <;> simp [Node.Released, Node.stop, Node.stopped, hs]

namespace Graph

/-- A service is installed and has not begun to stop. -/
def Awake (g : Graph) (a : Name) : Prop := ∃ n, g.nodes[a]? = some n ∧ n.stopping = false

/-- One graph comes from another by changing nodes, but neither their inboxes nor their
dependencies. -/
structure Updates (g g' : Graph) (f : Name → Node → Node) : Prop where
  nodes : ∀ x, g'.nodes[x]? = g.nodes[x]?.map (f x)
  dependents : g'.dependents = g.dependents
  inbox : ∀ {x n}, g.nodes[x]? = some n → (f x n).inbox = n.inbox
  dependencies : ∀ {x n}, g.nodes[x]? = some n → (f x n).dependencies = n.dependencies

namespace Updates

variable {g g' : Graph} {f : Name → Node → Node}

/-- Each node comes from the one there was. -/
theorem exists_of_node {m : Name} {n' : Node} (h : g.Updates g' f) (hn' : g'.nodes[m]? = some n') :
    ∃ n, g.nodes[m]? = some n ∧ n' = f m n := by
  rw [h.nodes] at hn'
  obtain ⟨n, hn, rfl⟩ := Option.map_eq_some_iff.mp hn'
  exact ⟨n, hn, rfl⟩

theorem node_eq {m : Name} {n n' : Node} (h : g.Updates g' f) (hn : g.nodes[m]? = some n)
    (hn' : g'.nodes[m]? = some n') : n' = f m n := by
  obtain ⟨k, hk, rfl⟩ := h.exists_of_node hn'
  rw [Option.some.inj (hn.symm.trans hk)]

/-- One node is changed, the others are as they were. -/
theorem eq_or_of_node {a m : Name} {k n' : Node}
    (h : g.Updates g' fun x n => if a = x then k else n) (hn' : g'.nodes[m]? = some n') :
    (a = m ∧ n' = k) ∨ (a ≠ m ∧ g.nodes[m]? = some n') := by
  obtain ⟨n, hn, rfl⟩ := h.exists_of_node hn'
  split
  · next ham => exact .inl ⟨ham, rfl⟩
  · next ham => exact .inr ⟨ham, hn⟩

theorem contains (h : g.Updates g' f) (x : Name) : g'.contains x = g.contains x := by
  simp only [Graph.contains, Std.ExtTreeMap.contains_eq_isSome_getElem?, h.nodes, Option.isSome_map]

theorem dependentsOf (h : g.Updates g' f) (a : Name) : g'.dependentsOf a = g.dependentsOf a := by
  simp only [Graph.dependentsOf, h.dependents]
  congr 1
  funext x
  exact h.contains x

theorem hosts (h : g.Updates g' f) (a : Name) (i : Inbox) : g'.Hosts a i ↔ g.Hosts a i := by
  simp only [Hosts, h.nodes, Option.map_eq_some_iff]
  constructor
  · rintro ⟨_, ⟨n, hn, rfl⟩, hi⟩
    exact ⟨n, hn, by rw [← hi, h.inbox hn]⟩
  · rintro ⟨n, hn, hi⟩
    exact ⟨_, ⟨n, hn, rfl⟩, by rw [h.inbox hn, hi]⟩

theorem needs (h : g.Updates g' f) (i : Inbox) (a : Name) : g'.Needs i a ↔ g.Needs i a := by
  simp only [Needs, h.nodes, Option.map_eq_some_iff]
  constructor
  · rintro ⟨m, _, ⟨n, hn, rfl⟩, hi, ha⟩
    exact ⟨m, n, hn, by rw [← hi, h.inbox hn], by rwa [h.dependencies hn] at ha⟩
  · rintro ⟨m, n, hn, hi, ha⟩
    exact ⟨m, _, ⟨n, hn, rfl⟩, by rw [h.inbox hn, hi], by rwa [h.dependencies hn]⟩

/-- Only what becomes of the nodes there are counts. -/
theorem congr {f' : Name → Node → Node} (h : g.Updates g' f)
    (hf : ∀ {x n}, g.nodes[x]? = some n → f' x n = f x n) : g.Updates g' f' where
  nodes := by
    intro x
    rw [h.nodes]
    cases hn : g.nodes[x]? with
    | none => rfl
    | some n => rw [Option.map_some, Option.map_some, hf hn]
  dependents := h.dependents
  inbox := fun hn => by rw [hf hn, h.inbox hn]
  dependencies := fun hn => by rw [hf hn, h.dependencies hn]

theorem trans {g'' : Graph} {f' : Name → Node → Node} (h : g.Updates g' f)
    (h' : g'.Updates g'' f') : g.Updates g'' fun x n => f' x (f x n) where
  nodes := by
    intro x
    rw [h'.nodes, h.nodes, Option.map_map]
    rfl
  dependents := h'.dependents.trans h.dependents
  inbox := fun {x n} hn => (h'.inbox (by rw [h.nodes, hn]; rfl)).trans (h.inbox hn)
  dependencies := fun {x n} hn =>
    (h'.dependencies (by rw [h.nodes, hn]; rfl)).trans (h.dependencies hn)

theorem inboxesDistinct (h : g.Updates g' f) (hg : g.InboxesDistinct) : g'.InboxesDistinct := by
  apply hg.of_nodes
  intro x n' hn'
  obtain ⟨n, hn, rfl⟩ := h.exists_of_node hn'
  exact ⟨n, hn, (h.inbox hn).symm⟩

theorem coherent (h : g.Updates g' f) (hg : g.Coherent)
    (hvalue : ∀ x n, g.nodes[x]? = some n → (f x n).stopping = true → (f x n).value = none)
    (hpending : ∀ x n p, g.nodes[x]? = some n → (f x n).pendingDependents = some p →
      (f x n).stopping = true ∧ p ≠ ∅ ∧ ∀ y ∈ p, ∃ k, g.nodes[y]? = some k ∧ x ∈ k.dependencies) :
    g'.Coherent where
  dependents := by
    intro d m
    rw [h.dependents, hg.dependents, h.nodes]
    constructor
    · rintro ⟨n, hn, hd⟩
      exact ⟨f m n, by simp [hn], by rwa [h.dependencies hn]⟩
    · rintro ⟨n', hn', hd⟩
      obtain ⟨n, hn, rfl⟩ := Option.map_eq_some_iff.mp hn'
      exact ⟨n, hn, by rwa [h.dependencies hn] at hd⟩
  inboxes := h.inboxesDistinct hg.inboxes
  value := by
    intro m n' hn' hs
    obtain ⟨n, hn, rfl⟩ := h.exists_of_node hn'
    exact hvalue m n hn hs
  pending := by
    intro m n' p hn' hp
    obtain ⟨n, hn, rfl⟩ := h.exists_of_node hn'
    obtain ⟨hs, hne, hmem⟩ := hpending m n p hn hp
    refine ⟨hs, hne, fun y hy => ?_⟩
    obtain ⟨k, hk, hd⟩ := hmem y hy
    exact ⟨f y k, by simp [h.nodes, hk], by rwa [h.dependencies hk]⟩

end Updates

/-! ## Changes of one node -/

theorem setNode_updates {g : Graph} {a : Name} {n k : Node} (hn : g.nodes[a]? = some n)
    (hi : k.inbox = n.inbox) (hd : k.dependencies = n.dependencies) :
    g.Updates (g.setNode a k) fun x n => if a = x then k else n where
  nodes := by
    intro x
    rw [setNode_nodes]
    by_cases hx : a = x
    · subst hx; simp [hn]
    · simp [hx]
  dependents := rfl
  inbox := by intro x m hm; split <;> simp_all
  dependencies := by intro x m hm; split <;> simp_all

theorem Coherent.setState {g : Graph} (hg : g.Coherent) {a : Name} {n : Node}
    (hn : g.nodes[a]? = some n) (state : State) : (g.setNode a { n with state }).Coherent := by
  apply (setNode_updates (k := { n with state }) hn rfl rfl).coherent hg
  · intro x k hk
    have := hg.value hk
    split <;> simp_all
  · intro x k p hk
    have := hg.pending (p := p) hk
    split <;> simp_all

theorem Coherent.beginStopping_updates {g : Graph} (hg : g.Coherent) (a : Name) :
    g.Updates (g.beginStopping a).1
      fun x k => if a = x then k.stop (g.dependentsOf a) else k where
  nodes := by
    intro x
    cases hn : g.nodes[a]? with
    | none =>
        rw [beginStopping_of_none hn]
        by_cases hx : a = x
        · subst hx; simp [hn]
        · simp [hx]
    | some n =>
        cases hs : n.stopping with
        | false =>
            rw [hg.beginStopping_nodes hn hs]
            by_cases hx : a = x
            · subst hx; simp [hn, Node.stop, hs]
            · simp [hx]
        | true =>
            rw [beginStopping_of_stopping hn hs]
            by_cases hx : a = x
            · subst hx; simp [hn, Node.stop, hs]
            · simp [hx]
  dependents := beginStopping_dependents g a
  inbox := by intro x k _; split <;> simp
  dependencies := by intro x k _; split <;> simp

theorem Coherent.beginStopping {g : Graph} (hg : g.Coherent) (a : Name) :
    (g.beginStopping a).1.Coherent := by
  apply (hg.beginStopping_updates a).coherent hg
  · intro x k hk
    split
    · exact fun _ => Node.stop_value (hg.value hk) _
    · exact hg.value hk
  · intro x k p hk hp
    by_cases hx : a = x
    · subst hx
      simp only [if_true] at hp ⊢
      unfold Node.stop at hp ⊢
      split at hp
      · next hs => simpa [hs] using hg.pending hk hp
      · next hs =>
          simp only [hs, Node.stopped] at hp ⊢
          split at hp
          · cases hp
          · next he =>
              cases hp
              refine ⟨rfl, Names.ofList_ne_empty (by simpa using he), fun y hy => ?_⟩
              exact hg.mem_dependentsOf.mp (Names.mem_ofList.mp hy)
    · simp only [hx, if_false] at hp ⊢
      exact hg.pending hk hp

open Classical in
/-- What an incarnation is sent when a service is made to stop: only one that had not begun to stop
tells anyone; its dependents are told, or it is told that it has none. -/
noncomputable def stopSignals (g : Graph) (a : Name) (i : Inbox) : List Signal :=
  if g.Awake a then
    if g.Needs i a then [.dependenciesUnavailable]
    else if g.Hosts a i ∧ ∀ j, ¬g.Needs j a then [.dependentsStopped] else []
  else []

open Classical in
theorem Coherent.signalsTo_beginStopping_eq {g : Graph} (hg : g.Coherent) (a : Name) (i : Inbox) :
    signalsTo i (g.beginStopping a).2 = g.stopSignals a i := by
  unfold stopSignals
  cases hn : g.nodes[a]? with
  | none => simp [beginStopping_of_none hn, Awake, hn]
  | some n =>
      cases hs : n.stopping with
      | true => simp [beginStopping_of_stopping hn hs, Awake, hn, hs]
      | false =>
          rw [hg.signalsTo_beginStopping hn hs]
          have hawake : g.Awake a := ⟨n, hn, hs⟩
          have hhosts : g.Hosts a i ↔ i = n.inbox := by
            simp only [Hosts, hn, Option.some.injEq, exists_eq_left']
            exact eq_comm
          rw [if_pos hawake]
          exact if_congr Iff.rfl rfl (if_congr (by rw [hhosts]) rfl rfl)

theorem Coherent.requestRemoval {g : Graph} (hg : g.Coherent) (a : Name) :
    (g.requestRemoval a).1.Coherent := by
  rw [requestRemoval_fst]
  exact hg.beginStopping a

/-! ## Removal -/

theorem Coherent.unregister {g : Graph} (hg : g.Coherent) (a : Name) :
    (g.unregister a).1.Coherent := by
  cases hn : g.nodes[a]? with
  | none => rwa [unregister_of_none hn]
  | some n =>
      have key : ∀ (x : Name) (k' : Node), (g.unregister a).1.nodes[x]? = some k' →
          a ≠ x ∧ ∃ k, g.nodes[x]? = some k ∧ k' = k.strike a := by
        intro x k' h
        rw [hg.unregister_nodes hn] at h
        split at h
        · cases h
        · next hx =>
            obtain ⟨k, hk, rfl⟩ := Option.map_eq_some_iff.mp h
            exact ⟨hx, k, hk, rfl⟩
      refine ⟨?_, ?_, ?_, ?_⟩
      · intro d m
        rw [mem_dependents_unregister hn, hg.dependents, hg.unregister_nodes hn]
        by_cases hm : a = m
        · subst hm
          simp [hn]
        · simp [hm, Ne.symm hm, Node.strike]
      · apply hg.inboxes.of_nodes
        intro x k' h
        obtain ⟨_, k, hk, rfl⟩ := key x k' h
        exact ⟨k, hk, rfl⟩
      · intro m k' h hs
        obtain ⟨_, k, hk, rfl⟩ := key m k' h
        have := hg.value hk
        exact this hs
      · intro m k' p h hp
        obtain ⟨hm, k, hk, rfl⟩ := key m k' h
        have hmem : ∀ y ∈ p, y ≠ a ∧ ∃ k', g.nodes[y]? = some k' ∧ m ∈ k'.dependencies := by
          intro y hy
          obtain ⟨hya, q, hq, hyq⟩ := (Node.mem_strike hp).mp hy
          exact ⟨hya, (hg.pending hk hq).2.2 y hyq⟩
        refine ⟨?_, ?_, ?_⟩
        · simp only [Node.strike, Option.bind_eq_some_iff] at hp
          obtain ⟨q, hq, _⟩ := hp
          exact (hg.pending hk hq).1
        · simp only [Node.strike, Option.bind_eq_some_iff] at hp
          obtain ⟨q, hq, hp⟩ := hp
          split at hp
          · cases hp
          · next he =>
              cases hp
              exact fun h => he (Std.ExtTreeSet.isEmpty_iff.mpr h)
        · intro y hy
          obtain ⟨hya, k', hk', hmd⟩ := hmem y hy
          refine ⟨k'.strike a, ?_, hmd⟩
          simp [hg.unregister_nodes hn, Ne.symm hya, hk']

/-! ## Registration -/

/-- The graph in which a new service stands before its dependencies are looked at. -/
def enter (g : Graph) (r : Registration) (i : Inbox) : Graph :=
  { nodes := g.nodes.insert r.name (r.node i)
    dependents := g.dependents.fileAll r.dependencies.toList r.name
    groups := g.groups.fileAll r.group.toList r.name
    referrers := g.referrers.fileAll r.references.toList r.name }

theorem register_fst (g : Graph) (r : Registration) (i : Inbox) :
    (g.register r i).1 = ((g.enter r i).resolve r.name).1 := rfl

theorem signalsTo_register_eq (g : Graph) (r : Registration) (i j : Inbox) :
    signalsTo j (g.register r i).2 = signalsTo j ((g.enter r i).resolve r.name).2 := by
  have hmembers : ∀ l : List Delivery, (∀ d ∈ l, d.message.signal? = none) →
      signalsTo j (l ++ ((g.enter r i).resolve r.name).2) =
        signalsTo j ((g.enter r i).resolve r.name).2 := by
    intro l hl
    simp [signalsTo_eq_nil hl]
  apply hmembers
  intro d hd
  simp only [List.mem_flatMap, List.mem_map] at hd
  obtain ⟨_, _, _, _, rfl⟩ := hd
  rfl

theorem enter_nodes (g : Graph) (r : Registration) (i : Inbox) (x : Name) :
    (g.enter r i).nodes[x]? = if r.name = x then some (r.node i) else g.nodes[x]? := by
  simp [enter, Std.ExtTreeMap.getElem?_insert]

theorem exposed?_enter {g : Graph} {r : Registration} (hr : g.nodes[r.name]? = none) (i : Inbox)
    (d : Name) : (g.enter r i).exposed? d = g.exposed? d := by
  rw [exposed?_eq, exposed?_eq, enter_nodes]
  split
  · next h => subst h; simp [hr, Registration.node]
  · rfl

theorem Coherent.enter {g : Graph} (hg : g.Coherent) {r : Registration}
    (hr : g.nodes[r.name]? = none) {i : Inbox} (hi : ∀ m, ¬g.Hosts m i) :
    (g.enter r i).Coherent := by
  have hold : ∀ (x : Name) (k : Node), g.nodes[x]? = some k → r.name ≠ x := by
    rintro x k hk rfl
    simp [hr] at hk
  refine ⟨?_, ?_, ?_, ?_⟩
  · intro d m
    simp only [Graph.enter, Index.mem_members_fileAll, Std.ExtTreeSet.mem_toList, hg.dependents]
    rw [Std.ExtTreeMap.getElem?_insert]
    by_cases hm : r.name = m
    · subst hm
      simp [hr, Registration.node]
    · simp [hm, Ne.symm hm]
  · intro x x' k k' hk hk' he
    rw [enter_nodes] at hk hk'
    split at hk <;> split at hk'
    · next h h' => exact h.symm.trans h'
    · cases hk
      exact absurd ⟨k', hk', he.symm⟩ (hi x')
    · cases hk'
      exact absurd ⟨k, hk, he⟩ (hi x)
    · exact hg.inboxes hk hk' he
  · intro m k hk hs
    rw [enter_nodes] at hk
    split at hk
    · cases hk; rfl
    · exact hg.value hk hs
  · intro m k p hk hp
    rw [enter_nodes] at hk
    split at hk
    · cases hk; simp [Registration.node] at hp
    · obtain ⟨hs, hne, hmem⟩ := hg.pending hk hp
      refine ⟨hs, hne, fun y hy => ?_⟩
      obtain ⟨k', hk', hm⟩ := hmem y hy
      exact ⟨k', by simp [enter_nodes, hold y k' hk', hk'], hm⟩

theorem resolve_updates (g : Graph) (a : Name) :
    g.Updates (g.resolve a).1 fun x k => if a = x then g.grant k else k where
  nodes := by
    intro x
    rw [resolve_nodes]
    by_cases hx : a = x <;> simp [hx]
  dependents := resolve_dependents g a
  inbox := by intro x k _; split <;> rfl
  dependencies := by intro x k _; split <;> rfl

theorem resolveAll_updates (g : Graph) (names : List Name) :
    g.Updates (g.resolveAll names).1 fun x k => if x ∈ names then g.grant k else k where
  nodes := by
    intro x
    rw [resolveAll_nodes]
    by_cases hx : x ∈ names <;> simp [hx]
  dependents := resolveAll_dependents g names
  inbox := by intro x k _; split <;> rfl
  dependencies := by intro x k _; split <;> rfl

theorem Coherent.resolve {g : Graph} (hg : g.Coherent) (a : Name) : (g.resolve a).1.Coherent := by
  apply (resolve_updates g a).coherent hg
  · intro x k hk
    have := hg.value hk
    split <;> exact this
  · intro x k p hk
    have := hg.pending (p := p) hk
    split <;> exact this

theorem Coherent.resolveAll {g : Graph} (hg : g.Coherent) (names : List Name) :
    (g.resolveAll names).1.Coherent := by
  apply (resolveAll_updates g names).coherent hg
  · intro x k hk
    have := hg.value hk
    split <;> exact this
  · intro x k p hk
    have := hg.pending (p := p) hk
    split <;> exact this

theorem Coherent.register {g : Graph} (hg : g.Coherent) {r : Registration}
    (hr : g.nodes[r.name]? = none) {i : Inbox} (hi : ∀ m, ¬g.Hosts m i) :
    (g.register r i).1.Coherent :=
  (hg.enter hr hi).resolve r.name

/-! ## Reports -/

theorem Coherent.expose {g : Graph} (hg : g.Coherent) {a : Name} {n : Node}
    (hn : g.nodes[a]? = some n) (hs : n.stopping = false) (v : Value) :
    (g.setNode a { n with value := some v }).Coherent := by
  apply (setNode_updates (k := { n with value := some v }) hn rfl rfl).coherent hg
  · intro x k hk
    have := hg.value hk
    split <;> simp_all
  · intro x k p hk
    have := hg.pending (p := p) hk
    split <;> simp_all

theorem exposeStarted_eq {g : Graph} {a : Name} {n : Node} (hn : g.nodes[a]? = some n)
    (hs : n.stopping = false) (v : Value) :
    (g.exposeStarted a (some v)).1 =
      ((g.setNode a { n with value := some v }).resolveAll (g.dependentsOf a)).1 := by
  simp [exposeStarted, hn, hs]

theorem signalsTo_exposeStarted {g : Graph} {a : Name} {n : Node} (hn : g.nodes[a]? = some n)
    (hs : n.stopping = false) (v : Value) (i : Inbox) :
    signalsTo i (g.exposeStarted a (some v)).2 =
      signalsTo i ((g.setNode a { n with value := some v }).resolveAll (g.dependentsOf a)).2 := by
  simp only [exposeStarted, hn, hs, Bool.false_eq_true, if_false, signalsTo_append]
  rw [signalsTo_eq_nil (l := n.group.toList.flatMap _), List.append_nil]
  intro d hd
  simp only [List.mem_flatMap, notifyAll, List.mem_filterMap, Option.map_eq_some_iff] at hd
  obtain ⟨_, _, _, _, _, _, rfl⟩ := hd
  rfl

theorem exposeStarted_of_not {g : Graph} {a : Name} {value : Option Value}
    (h : ∀ n, g.nodes[a]? = some n → n.stopping = true ∨ value = none) :
    g.exposeStarted a value = (g, []) := by
  unfold exposeStarted
  split
  · next n v hn =>
      have := h n hn
      simp_all
  · rfl

theorem Coherent.exposeStarted {g : Graph} (hg : g.Coherent) (a : Name) (value : Option Value) :
    (g.exposeStarted a value).1.Coherent := by
  by_cases h : ∀ n, g.nodes[a]? = some n → n.stopping = true ∨ value = none
  · rwa [exposeStarted_of_not h]
  · push Not at h
    obtain ⟨n, hn, hs, hv⟩ := h
    obtain ⟨v, rfl⟩ := Option.ne_none_iff_exists'.mp hv
    have hs := Bool.eq_false_iff.mpr hs
    rw [exposeStarted_eq hn hs]
    exact (hg.expose hn hs v).resolveAll _

theorem report_of_none {g : Graph} {a : Name} (hn : g.nodes[a]? = none) (state : State)
    (value : Option Value) : g.report a state value = (g, []) := by
  simp [report, hn]

theorem Coherent.report {g : Graph} (hg : g.Coherent) (a : Name) (state : State)
    (value : Option Value) : (g.report a state value).1.Coherent := by
  cases hn : g.nodes[a]? with
  | none => rwa [report_of_none hn]
  | some n =>
      have hset := hg.setState hn state
      cases state with
      | waiting | starting => simpa [Graph.report, hn] using hset
      | started => simpa [Graph.report, hn] using hset.exposeStarted a value
      | draining | stopping => simpa [Graph.report, hn] using hset.beginStopping a
      | removed => simpa [Graph.report, hn] using (hset.beginStopping a).unregister a

theorem coherent_empty : Coherent empty := by
  have hno : ∀ (x : Name) (n : Node), empty.nodes[x]? ≠ some n := by
    intro x n
    simp [empty]
  refine ⟨?_, ?_, ?_, ?_⟩
  · intro d m
    constructor
    · intro h
      simp [empty, Index.mem_members] at h
    · rintro ⟨n, hn, _⟩
      exact absurd hn (hno m n)
  · intro m m' n n' hn
    exact absurd hn (hno m n)
  · intro m n hn
    exact absurd hn (hno m n)
  · intro m n p hn
    exact absurd hn (hno m n)

end Graph

end ServiceHost
