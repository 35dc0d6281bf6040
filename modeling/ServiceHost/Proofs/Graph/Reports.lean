import ServiceHost.Proofs.Graph.Coherence

/-! # What a report does

A report replaces the reported state and then exposes the service, begins to stop it, or removes it
from the graph. -/

namespace ServiceHost

/-- On its way out: draining, stopping or removed. -/
def State.Leaving (s : State) : Prop := 3 ≤ s.phase

instance (s : State) : Decidable s.Leaving := inferInstanceAs (Decidable (3 ≤ s.phase))

namespace Graph

variable {g : Graph} {a : Name} {n : Node}

/-- The graph once the reported state is noted down, before anything is done about it. -/
abbrev note (g : Graph) (a : Name) (n : Node) (state : State) : Graph :=
  g.setNode a { n with state }

theorem note_updates (hn : g.nodes[a]? = some n) (state : State) :
    g.Updates (g.note a n state) fun x k => if a = x then { n with state } else k :=
  setNode_updates (k := { n with state }) hn rfl rfl

theorem awake_note (hn : g.nodes[a]? = some n) (state : State) (b : Name) :
    (g.note a n state).Awake b ↔ g.Awake b := by
  simp only [Awake, note, setNode_nodes]
  by_cases hb : a = b
  · subst hb
    simp [hn]
  · simp [hb]

theorem awake_iff (hn : g.nodes[a]? = some n) : g.Awake a ↔ n.stopping = false := by
  simp [Awake, hn]

/-! ## A report before the start is complete -/

theorem report_early (hn : g.nodes[a]? = some n) {state : State} (h : state.phase < 2)
    (value : Option Value) : g.report a state value = (g.note a n state, []) := by
  cases state <;> simp_all [report, State.phase]

/-! ## A start is reported -/

/-- The graph in which a started service is exposed, before its dependents are looked at. -/
def present (g : Graph) (a : Name) (n : Node) (v : Value) : Graph :=
  g.setNode a { n with state := .started, value := some v }

theorem present_nodes (g : Graph) (a : Name) (n : Node) (v : Value) (x : Name) :
    (g.present a n v).nodes[x]? =
      if a = x then some { n with state := .started, value := some v } else g.nodes[x]? :=
  setNode_nodes g a x _

theorem setNode_setNode (g : Graph) (a : Name) (n k : Node) :
    (g.setNode a n).setNode a k = g.setNode a k := by
  apply Graph.ext
  · apply Std.ExtTreeMap.ext_getElem?
    intro x
    simp only [setNode_nodes]
    split <;> rfl
  all_goals rfl

theorem report_started (hn : g.nodes[a]? = some n) (hs : n.stopping = false) (v : Value) :
    (g.report a .started (some v)).1 = ((g.present a n v).resolveAll (g.dependentsOf a)).1 := by
  have hnote : (g.note a n .started).nodes[a]? = some { n with state := .started } := by
    simp [note, setNode_nodes]
  have hdep := (note_updates hn .started).dependentsOf a
  simp only [report, hn]
  rw [exposeStarted_eq hnote hs, setNode_setNode, hdep]
  rfl

theorem signalsTo_report_started (hn : g.nodes[a]? = some n) (hs : n.stopping = false) (v : Value)
    (i : Inbox) : signalsTo i (g.report a .started (some v)).2 =
      signalsTo i ((g.present a n v).resolveAll (g.dependentsOf a)).2 := by
  have hnote : (g.note a n .started).nodes[a]? = some { n with state := .started } := by
    simp [note, setNode_nodes]
  have hdep := (note_updates hn .started).dependentsOf a
  simp only [report, hn]
  rw [signalsTo_exposeStarted hnote hs, setNode_setNode, hdep]
  rfl

/-- A start is only taken note of if the service is stopping already, or exposes nothing. -/
theorem report_started_of_not (hn : g.nodes[a]? = some n) {value : Option Value}
    (h : n.stopping = true ∨ value = none) :
    g.report a .started value = (g.note a n .started, []) := by
  simp only [report, hn]
  apply exposeStarted_of_not
  intro k hk
  simp only [setNode_nodes, if_true, Option.some.injEq] at hk
  subst hk
  exact h

theorem present_updates (hn : g.nodes[a]? = some n) (v : Value) :
    g.Updates (g.present a n v)
      fun x k => if a = x then { n with state := .started, value := some v } else k :=
  setNode_updates (k := { n with state := .started, value := some v }) hn rfl rfl

/-- A report of a service that is not on its way out delivers dependencies at most. -/
theorem Coherent.mem_signalsTo_report (hg : g.Coherent) {state : State} (h : ¬state.Leaving)
    (value : Option Value) {i : Inbox} :
    ∀ x ∈ signalsTo i (g.report a state value).2, x = .dependenciesAvailable := by
  cases hn : g.nodes[a]? with
  | none => simp [report_of_none hn]
  | some n =>
      by_cases hphase : state.phase < 2
      · simp [report_early hn hphase]
      · obtain rfl : state = .started := by
          cases state <;> simp_all [State.Leaving, State.phase]
        by_cases hno : n.stopping = true ∨ value = none
        · simp [report_started_of_not hn hno]
        · push Not at hno
          obtain ⟨v, rfl⟩ := Option.ne_none_iff_exists'.mp hno.2
          rw [signalsTo_report_started hn (Bool.eq_false_iff.mpr hno.1),
            signalsTo_resolveAll ((present_updates hn v).inboxesDistinct hg.inboxes)
              (nodup_dependentsOf g a)]
          intro x hx
          split at hx <;> simp_all

/-- A report of a service that is not on its way out leaves it open who is stopping and who awaits
whom. -/
theorem report_stay_updates (hn : g.nodes[a]? = some n) {state : State} (h : ¬state.Leaving)
    (value : Option Value) : ∃ f, g.Updates (g.report a state value).1 f ∧
      ∀ {x k}, g.nodes[x]? = some k → (f x k).stopping = k.stopping ∧
        (f x k).pendingDependents = k.pendingDependents := by
  have hnote := note_updates hn state
  have hkeep : ∀ {x k}, g.nodes[x]? = some k →
      (if a = x then { n with state } else k).stopping = k.stopping ∧
        (if a = x then { n with state } else k).pendingDependents = k.pendingDependents := by
    intro x k hk
    split <;> simp_all
  by_cases hphase : state.phase < 2
  · rw [report_early hn hphase]
    exact ⟨_, hnote, hkeep⟩
  · obtain rfl : state = .started := by
      cases state <;> simp_all [State.Leaving, State.phase]
    by_cases hno : n.stopping = true ∨ value = none
    · rw [report_started_of_not hn hno]
      exact ⟨_, hnote, hkeep⟩
    · push Not at hno
      obtain ⟨v, rfl⟩ := Option.ne_none_iff_exists'.mp hno.2
      rw [report_started hn (Bool.eq_false_iff.mpr hno.1)]
      have hset := present_updates hn v
      have hall := resolveAll_updates (g.present a n v) (g.dependentsOf a)
      refine ⟨_, hset.trans hall, fun {x k} hk => ?_⟩
      split <;> split <;> simp_all [grant]

/-- A report of a service that is not on its way out resolves whom it sends its dependencies. -/
theorem Coherent.resolved_report_stay (hg : g.Coherent) (hn : g.nodes[a]? = some n)
    {state : State} (h : ¬state.Leaving) (value : Option Value) {m : Name} {k k' : Node}
    (hk : g.nodes[m]? = some k) (hk' : (g.report a state value).1.nodes[m]? = some k') :
    k'.resolved = true ↔ k.resolved = true ∨
      .dependenciesAvailable ∈ signalsTo k.inbox (g.report a state value).2 := by
  have hnote : ∀ {j : Node}, (g.note a n state).nodes[m]? = some j →
      (j.resolved = true ↔ k.resolved = true) := by
    intro j hj
    rw [setNode_nodes] at hj
    split at hj
    · next h =>
        subst h
        rw [← Option.some.inj hj, ← Option.some.inj (hn.symm.trans hk)]
    · rw [← Option.some.inj (hk.symm.trans hj)]
  by_cases hphase : state.phase < 2
  · rw [report_early hn hphase] at hk' ⊢
    simpa using hnote hk'
  · obtain rfl : state = .started := by
      cases state <;> simp_all [State.Leaving, State.phase]
    by_cases hno : n.stopping = true ∨ value = none
    · rw [report_started_of_not hn hno] at hk' ⊢
      simpa using hnote hk'
    · push Not at hno
      obtain ⟨v, rfl⟩ := Option.ne_none_iff_exists'.mp hno.2
      have hs := Bool.eq_false_iff.mpr hno.1
      have hu := present_updates hn v
      have hdistinct := hu.inboxesDistinct hg.inboxes
      rw [report_started hn hs, resolveAll_nodes] at hk'
      rw [signalsTo_report_started hn hs, signalsTo_resolveAll hdistinct (nodup_dependentsOf g a)]
      -- the node from which delivery starts differs from the one before in what is exposed only
      obtain ⟨j, hj, hji, hjr⟩ : ∃ j, (g.present a n v).nodes[m]? = some j ∧
          j.inbox = k.inbox ∧ j.resolved = k.resolved := by
        rw [present_nodes]
        by_cases ham : a = m
        · subst ham
          rw [hn, Option.some.injEq] at hk
          subst hk
          exact ⟨_, if_pos rfl, rfl, rfl⟩
        · exact ⟨k, by rw [if_neg ham, hk], rfl, rfl⟩
      have hiff : (∃ x ∈ g.dependentsOf a, ∃ j, (g.present a n v).nodes[x]? = some j ∧
            j.inbox = k.inbox ∧ (g.present a n v).canResolve j = true) ↔
          m ∈ g.dependentsOf a ∧ (g.present a n v).canResolve j = true := by
        constructor
        · rintro ⟨x, hx, j', hj', hi, hc⟩
          obtain rfl := hdistinct hj' hj (hi.trans hji.symm)
          obtain rfl := Option.some.inj (hj'.symm.trans hj)
          exact ⟨hx, hc⟩
        · rintro ⟨hm, hc⟩
          exact ⟨m, hm, j, hj, hji, hc⟩
      rw [if_congr hiff rfl rfl, ← hjr]
      rw [hj] at hk'
      by_cases hm : m ∈ g.dependentsOf a
      · rw [if_pos hm, Option.map_some, Option.some.injEq] at hk'
        subst hk'
        cases hc : (g.present a n v).canResolve j <;> simp [grant, hm, hc]
      · rw [if_neg hm, Option.some.injEq] at hk'
        simp [hm, hk']

/-! ## A stop is reported -/

theorem report_stop (hn : g.nodes[a]? = some n) {state : State} (h : state.Leaving)
    (hr : state ≠ .removed) (value : Option Value) :
    g.report a state value = (g.note a n state).beginStopping a := by
  cases state <;> simp_all [report, State.Leaving, State.phase]

theorem Coherent.report_stop_updates (hg : g.Coherent) (hn : g.nodes[a]? = some n)
    {state : State} (h : state.Leaving) (hr : state ≠ .removed) (value : Option Value) :
    g.Updates (g.report a state value).1 fun x k =>
      if a = x then Node.stop { n with state } (g.dependentsOf a) else k := by
  have hu := (hg.setState hn state).beginStopping_updates a
  have hd := (note_updates hn state).dependentsOf a
  rw [report_stop hn h hr]
  refine ⟨?_, by rw [hu.dependents]; rfl, ?_, ?_⟩
  · intro x
    rw [hu.nodes, setNode_nodes, hd]
    by_cases hx : a = x
    · subst hx; simp [hn]
    · simp [hx]
  · intro x k hk
    split <;> simp_all
  · intro x k hk
    split <;> simp_all

open Classical in
theorem Coherent.signalsTo_note_beginStopping (hg : g.Coherent) (hn : g.nodes[a]? = some n)
    (state : State) (i : Inbox) :
    signalsTo i ((g.note a n state).beginStopping a).2 = g.stopSignals a i := by
  have hu := note_updates hn state
  rw [(hg.setState hn state).signalsTo_beginStopping_eq a i]
  simp only [stopSignals, awake_note hn, hu.needs, hu.hosts]

/-! ## A removal is reported -/

theorem report_removed (hn : g.nodes[a]? = some n) (value : Option Value) :
    g.report a .removed value =
      ((((g.note a n .removed).beginStopping a).1.unregister a).1,
        ((g.note a n .removed).beginStopping a).2 ++
          (((g.note a n .removed).beginStopping a).1.unregister a).2) := by
  simp [report, hn]

/-- The graph just before a removed service is taken out of it. -/
theorem Coherent.leaving_nodes (hg : g.Coherent) (hn : g.nodes[a]? = some n) (x : Name) :
    ((g.note a n .removed).beginStopping a).1.nodes[x]? =
      if a = x then some (Node.stop { n with state := .removed } (g.dependentsOf a))
      else g.nodes[x]? := by
  have hd := (note_updates hn .removed).dependentsOf a
  rw [((hg.setState hn .removed).beginStopping_updates a).nodes, setNode_nodes, hd]
  by_cases hx : a = x
  · subst hx; simp
  · simp [hx]

theorem Coherent.report_removed_nodes (hg : g.Coherent) (hn : g.nodes[a]? = some n)
    (value : Option Value) (x : Name) :
    (g.report a .removed value).1.nodes[x]? =
      if a = x then none else g.nodes[x]?.map (·.strike a) := by
  have hmid := hg.leaving_nodes hn
  have hc := (hg.setState hn .removed).beginStopping a
  rw [report_removed hn, hc.unregister_nodes (by rw [hmid, if_pos rfl]), hmid]
  by_cases hx : a = x <;> simp [hx]

theorem Coherent.exists_of_report_removed (hg : g.Coherent) (hn : g.nodes[a]? = some n)
    {value : Option Value} {m : Name} {n' : Node}
    (hm : (g.report a .removed value).1.nodes[m]? = some n') :
    a ≠ m ∧ ∃ k, g.nodes[m]? = some k ∧ n' = k.strike a := by
  rw [hg.report_removed_nodes hn] at hm
  split at hm
  · cases hm
  · next h =>
      obtain ⟨k, hk, rfl⟩ := Option.map_eq_some_iff.mp hm
      exact ⟨h, k, hk, rfl⟩

open Classical in
theorem Coherent.signalsTo_report_removed (hg : g.Coherent) (hn : g.nodes[a]? = some n)
    (value : Option Value) (i : Inbox) :
    signalsTo i (g.report a .removed value).2 =
      g.stopSignals a i ++
      if ∃ m, m ≠ a ∧ ∃ k, g.nodes[m]? = some k ∧ k.inbox = i ∧ k.AwaitsOnly a
      then [.dependentsStopped] else [] := by
  have hmid := hg.leaving_nodes hn
  have hc := (hg.setState hn .removed).beginStopping a
  rw [report_removed hn, signalsTo_append, hg.signalsTo_note_beginStopping hn,
    hc.signalsTo_unregister (by rw [hmid, if_pos rfl])]
  congr 1
  have hiff : (∃ m, m ≠ a ∧ ∃ k, ((g.note a n .removed).beginStopping a).1.nodes[m]? = some k ∧
        k.inbox = i ∧ k.AwaitsOnly a) ↔
      ∃ m, m ≠ a ∧ ∃ k, g.nodes[m]? = some k ∧ k.inbox = i ∧ k.AwaitsOnly a := by
    constructor <;> rintro ⟨m, hm, h⟩ <;> exact ⟨m, hm, by simpa [hmid, Ne.symm hm] using h⟩
  simp only [hiff]

end Graph

end ServiceHost
