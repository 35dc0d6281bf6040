import ServiceHost.Proofs.Graph.Reports

/-! # What is known of a service

Only its own reports change the state a service is shown in, and what it exposes is what it
reported. -/

namespace ServiceHost

namespace Graph

/-- A node and the one an operation leaves in its place, in which a state is shown; it exposes no
more than the value reported, if any, or what it did. -/
structure Shown (n n' : Node) (s : State) (v : Option Value) : Prop where
  state : n'.state = s
  value : n'.value = none ∨ n'.value = n.value ∨ (s = .started ∧ n'.value = v)

theorem Shown.of_same {n n' : Node} (hs : n'.state = n.state) (hv : n'.value = n.value) :
    Shown n n' n.state none :=
  ⟨hs, .inr (.inl hv)⟩

theorem shown_stop (n : Node) (state : State) (dependents : List Name) (value : Option Value) :
    Shown n (Node.stop { n with state } dependents) state value := by
  refine ⟨Node.stop_state _ _, ?_⟩
  unfold Node.stop
  split
  · exact .inr (.inl rfl)
  · exact .inl rfl

variable {g : Graph} {a m : Name} {n n' : Node}

theorem Coherent.shown_requestRemoval (hg : g.Coherent)
    (hn : g.nodes[m]? = some n) : ∃ n', (g.requestRemoval a).1.nodes[m]? = some n' ∧
      Shown n n' n.state none := by
  rw [requestRemoval_fst, (hg.beginStopping_updates a).nodes, hn]
  refine ⟨_, rfl, ?_⟩
  dsimp only
  split
  · exact shown_stop n n.state _ none
  · exact .of_same rfl rfl

/-- A report of a service shows its state, and may expose its value. -/
theorem Coherent.shown_report (hg : g.Coherent) {k : Node} (ha : g.nodes[a]? = some k)
    {state : State} (hr : state ≠ .removed) (value : Option Value) :
    ∃ k', (g.report a state value).1.nodes[a]? = some k' ∧ Shown k k' state value := by
  by_cases hleave : state.Leaving
  · rw [(hg.report_stop_updates ha hleave hr value).nodes, ha]
    refine ⟨_, rfl, ?_⟩
    simp only [if_true]
    exact shown_stop k state _ value
  · have hnoted : (g.note a k state).nodes[a]? = some { k with state } := by
      rw [setNode_nodes, if_pos rfl]
    by_cases hphase : state.phase < 2
    · rw [report_early ha hphase]
      exact ⟨_, hnoted, rfl, .inr (.inl rfl)⟩
    · obtain rfl : state = .started := by
        cases state <;> simp_all [State.Leaving, State.phase]
      by_cases hno : k.stopping = true ∨ value = none
      · rw [report_started_of_not ha hno]
        exact ⟨_, hnoted, rfl, .inr (.inl rfl)⟩
      · push Not at hno
        obtain ⟨v, rfl⟩ := Option.ne_none_iff_exists'.mp hno.2
        rw [report_started ha (Bool.eq_false_iff.mpr hno.1), resolveAll_nodes, present_nodes,
          if_pos rfl]
        split
        · exact ⟨_, rfl, rfl, .inr (.inr ⟨rfl, rfl⟩)⟩
        · exact ⟨_, rfl, rfl, .inr (.inr ⟨rfl, rfl⟩)⟩

/-- A report of another service leaves the state and the value, unless it takes the value back. -/
theorem Coherent.shown_report_of_ne (hg : g.Coherent) {k : Node} (ha : g.nodes[a]? = some k)
    (hn : g.nodes[m]? = some n) (ham : a ≠ m) (state : State) (value : Option Value) :
    ∃ n', (g.report a state value).1.nodes[m]? = some n' ∧ Shown n n' n.state none := by
  by_cases hleave : state.Leaving
  · by_cases hr : state = .removed
    · subst hr
      rw [hg.report_removed_nodes ha, if_neg ham, hn]
      exact ⟨_, rfl, .of_same rfl rfl⟩
    · rw [(hg.report_stop_updates ha hleave hr value).nodes, hn]
      refine ⟨_, rfl, ?_⟩
      simp only [ham, if_false]
      exact .of_same rfl rfl
  · have hnoted : (g.note a k state).nodes[m]? = some n := by
      rw [setNode_nodes, if_neg ham, hn]
    by_cases hphase : state.phase < 2
    · rw [report_early ha hphase]
      exact ⟨_, hnoted, .of_same rfl rfl⟩
    · obtain rfl : state = .started := by
        cases state <;> simp_all [State.Leaving, State.phase]
      by_cases hno : k.stopping = true ∨ value = none
      · rw [report_started_of_not ha hno]
        exact ⟨_, hnoted, .of_same rfl rfl⟩
      · push Not at hno
        obtain ⟨v, rfl⟩ := Option.ne_none_iff_exists'.mp hno.2
        rw [report_started ha (Bool.eq_false_iff.mpr hno.1), resolveAll_nodes, present_nodes,
          if_neg ham, hn]
        split
        · exact ⟨_, rfl, .of_same rfl rfl⟩
        · exact ⟨_, rfl, .of_same rfl rfl⟩

theorem Coherent.nodes_report_eq_none (hg : g.Coherent) (state : State) (value : Option Value)
    (hm : (g.report a state value).1.nodes[m]? = none) :
    g.nodes[m]? = none ∨ (m = a ∧ state = .removed) := by
  by_contra hno
  push Not at hno
  obtain ⟨n, hn⟩ := Option.ne_none_iff_exists'.mp hno.1
  cases hk : g.nodes[a]? with
  | none =>
      rw [report_of_none hk, hn] at hm
      cases hm
  | some k =>
      by_cases ham : a = m
      · subst ham
        obtain ⟨_, h, _⟩ := hg.shown_report hn (hno.2 rfl) value
        simp [h] at hm
      · obtain ⟨_, h, _⟩ := hg.shown_report_of_ne hk hn ham state value
        simp [h] at hm

theorem Coherent.nodes_report_removed (hg : g.Coherent) (value : Option Value) :
    (g.report a .removed value).1.nodes[a]? = none := by
  cases hn : g.nodes[a]? with
  | none => rwa [report_of_none hn]
  | some n => rw [hg.report_removed_nodes hn, if_pos rfl]

/-- No operation on the services there are adds one. -/
theorem Coherent.exists_of_report (hg : g.Coherent) {state : State} {value : Option Value}
    (hm : (g.report a state value).1.nodes[m]? = some n') : ∃ n, g.nodes[m]? = some n := by
  cases hn : g.nodes[a]? with
  | none =>
      rw [report_of_none hn] at hm
      exact ⟨n', hm⟩
  | some n =>
      by_cases hleave : state.Leaving
      · by_cases hr : state = .removed
        · subst hr
          obtain ⟨_, k, hk, _⟩ := hg.exists_of_report_removed hn hm
          exact ⟨k, hk⟩
        · obtain ⟨k, hk, _⟩ := (hg.report_stop_updates hn hleave hr value).exists_of_node hm
          exact ⟨k, hk⟩
      · obtain ⟨f, hu, _⟩ := report_stay_updates hn hleave value
        obtain ⟨k, hk, _⟩ := hu.exists_of_node hm
        exact ⟨k, hk⟩

theorem Coherent.exists_of_requestRemoval (hg : g.Coherent)
    (hm : (g.requestRemoval a).1.nodes[m]? = some n') : ∃ n, g.nodes[m]? = some n := by
  rw [requestRemoval_fst] at hm
  obtain ⟨k, hk, _⟩ := (hg.beginStopping_updates a).exists_of_node hm
  exact ⟨k, hk⟩

/-- Registration lets the services there are be. -/
theorem nodes_register_of_ne {r : Registration} (i : Inbox) (hm : r.name ≠ m) :
    (g.register r i).1.nodes[m]? = g.nodes[m]? := by
  rw [register_fst, resolve_nodes, if_neg hm, enter_nodes, if_neg hm]

theorem nodes_register_self (r : Registration) (i : Inbox) :
    (g.register r i).1.nodes[r.name]? = some ((g.enter r i).grant (r.node i)) := by
  rw [register_fst, resolve_nodes, if_pos rfl, enter_nodes, if_pos rfl]
  rfl

theorem isEmpty_iff : g.isEmpty = true ↔ ∀ m : Name, g.nodes[m]? = none := by
  rw [isEmpty, Std.ExtTreeMap.isEmpty_iff]
  constructor
  · intro h m
    rw [h]
    exact Std.ExtTreeMap.getElem?_empty
  · intro h
    apply Std.ExtTreeMap.ext_getElem?
    intro m
    rw [h m]
    exact Std.ExtTreeMap.getElem?_empty.symm

theorem mem_roots : m ∈ g.roots ↔ ∃ n : Node, g.nodes[m]? = some n ∧
    (n.state = .waiting ∨ ∀ d ∈ n.dependencies, g.nodes[d]? = none) := by
  simp only [roots, List.mem_map, List.mem_filter, Prod.exists, exists_and_right, exists_eq_right,
    Std.ExtTreeMap.mem_toList_iff_getElem?_eq_some]
  simp [contains]

end Graph

end ServiceHost
