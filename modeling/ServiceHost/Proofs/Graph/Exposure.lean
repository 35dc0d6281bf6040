import ServiceHost.Proofs.Graph.Order
import ServiceHost.Proofs.Graph.Shown
import ServiceHost.Proofs.Graph.Supply

/-! # Exposure, whatever is reported

A service comes to expose a value only by a report that it has started, and that report looks at
everyone who depends on it. So nobody who lacks nothing is passed over, even if controllers report
what they like. -/

namespace ServiceHost

namespace Graph

/-- Nobody is passed over: a service that was not given its dependencies and does not stop lacks
one of them. -/
def Thorough (g : Graph) : Prop :=
  ∀ ⦃m : Name⦄ ⦃n : Node⦄, g.nodes[m]? = some n → n.resolved = false → n.stopping = false →
    ∃ d ∈ n.dependencies, g.exposed? d = none

/-- Between two graphs, the service with this inbox came to have its dependencies. -/
def NewlyResolved (g g' : Graph) (i : Inbox) : Prop :=
  ∃ (m : Name) (n' : Node), g'.nodes[m]? = some n' ∧ n'.inbox = i ∧ n'.resolved = true ∧
    ∀ n, g.nodes[m]? = some n → n.resolved = false

variable {g g' : Graph} {a m : Name} {n n' : Node} {state : State} {value : Option Value}

/-- A report of an installed service is noted at most, or exposes it, or stops or removes it. -/
theorem report_cases (hn : g.nodes[a]? = some n) (state : State) (value : Option Value) :
    ((state = .started → n.stopping = true ∨ value = none) ∧
      g.report a state value = (g.note a n state, [])) ∨
    (∃ v, state = .started ∧ value = some v ∧ n.stopping = false) ∨
    (state.Leaving ∧ state ≠ .removed) ∨ state = .removed := by
  by_cases hleave : state.Leaving
  · by_cases hr : state = .removed
    · exact .inr (.inr (.inr hr))
    · exact .inr (.inr (.inl ⟨hleave, hr⟩))
  · by_cases hphase : state.phase < 2
    · refine .inl ⟨?_, report_early hn hphase value⟩
      rintro rfl
      simp [State.phase] at hphase
    · obtain rfl : state = .started := by
        cases state <;> simp_all [State.Leaving, State.phase]
      by_cases hno : n.stopping = true ∨ value = none
      · exact .inl ⟨fun _ => hno, report_started_of_not hn hno⟩
      · push Not at hno
        obtain ⟨v, rfl⟩ := Option.ne_none_iff_exists'.mp hno.2
        exact .inr (.inl ⟨v, rfl, rfl, Bool.eq_false_iff.mpr hno.1⟩)

/-- Who is neither stopped nor given a value exposes what it did. -/
theorem exposed?_congr {d : Name}
    (h : g'.nodes[d]?.map (fun k => (k.stopping, k.value)) =
      g.nodes[d]?.map fun k => (k.stopping, k.value)) : g'.exposed? d = g.exposed? d := by
  rw [exposed?_eq, exposed?_eq]
  cases hk : g.nodes[d]? <;> cases hk' : g'.nodes[d]? <;> simp_all

theorem map_fst_of_mapM {l : List Name} {values : List (Name × Value)}
    (h : l.mapM (fun d => (g.exposed? d).map (d, ·)) = some values) :
    values.map Prod.fst = l := by
  induction l generalizing values with
  | nil => simp_all
  | cons d l ih =>
      simp only [List.mapM_cons, Option.pure_def, Option.bind_eq_bind, Option.bind_eq_some_iff,
        Option.map_eq_some_iff, Option.some.injEq] at h
      obtain ⟨_, ⟨v, _, rfl⟩, rest, hrest, rfl⟩ := h
      simp [ih hrest]

/-- What is given lists the dependencies by name, each once. -/
theorem map_fst_of_available? {ds : Names} {values : List (Name × Value)}
    (h : g.available? ds = some values) : values.map Prod.fst = ds.toList :=
  map_fst_of_mapM h

/-! ## Values -/

/-- A service that goes on exposes what it reported with its start, or what it did before. -/
theorem Coherent.value_report (hg : g.Coherent) (hn : g.nodes[m]? = some n)
    (hn' : (g.report a state value).1.nodes[m]? = some n') (hs : n'.stopping = false) :
    n'.value = if a = m ∧ state = .started ∧ value.isSome = true then value else n.value := by
  cases hk : g.nodes[a]? with
  | none =>
      have ham : a ≠ m := by rintro rfl; simp [hk] at hn
      rw [report_of_none hk, hn, Option.some.injEq] at hn'
      rw [if_neg fun h => ham h.1, hn']
  | some k =>
      have hsame : ∀ {P : Prop} [Decidable P], ¬P → n'.value = n.value →
          n'.value = if P then value else n.value := fun hP h => by rw [if_neg hP, h]
      rcases report_cases hk state value with
        ⟨hno, hr⟩ | ⟨v, rfl, rfl, hks⟩ | ⟨hleave, hne⟩ | rfl
      · rw [hr, setNode_nodes] at hn'
        split at hn'
        · next ham =>
            subst ham
            obtain rfl := Option.some.inj (hn.symm.trans hk)
            obtain rfl := Option.some.inj hn'
            refine hsame ?_ rfl
            rintro ⟨_, hst, hsome⟩
            rcases hno hst with hstop | rfl
            · exact absurd hs (by simp [hstop])
            · cases hsome
        · next ham => exact hsame (fun h => ham h.1) (by rw [Option.some.inj (hn.symm.trans hn')])
      · rw [report_started hk hks, resolveAll_nodes, present_nodes] at hn'
        by_cases ham : a = m
        · subst ham
          rw [if_pos rfl] at hn'
          rw [if_pos ⟨rfl, rfl, rfl⟩]
          split at hn' <;> exact Option.some.inj hn' ▸ rfl
        · rw [if_neg ham, hn] at hn'
          refine hsame (fun h => ham h.1) ?_
          split at hn' <;> exact Option.some.inj hn' ▸ rfl
      · rw [(hg.report_stop_updates hk hleave hne value).nodes, hn] at hn'
        refine hsame (fun h => by simp [h.2.1, State.Leaving, State.phase] at hleave) ?_
        obtain rfl := Option.some.inj hn'
        split at hs <;> simp_all
      · rw [hg.report_removed_nodes hk] at hn'
        refine hsame (by simp) ?_
        split at hn'
        · cases hn'
        · rw [hn] at hn'
          exact Option.some.inj hn' ▸ rfl

theorem Coherent.value_requestRemoval (hg : g.Coherent) (hn : g.nodes[m]? = some n)
    (hn' : (g.requestRemoval a).1.nodes[m]? = some n') (hs : n'.stopping = false) :
    n'.value = n.value := by
  rw [requestRemoval_fst, (hg.beginStopping_updates a).nodes, hn] at hn'
  obtain rfl := Option.some.inj hn'
  split at hs <;> simp_all

/-! ## Nobody is passed over -/

theorem thorough_empty : empty.Thorough := by
  intro m n hn
  simp [empty] at hn

/-- Whoever was looked at and not given its dependencies lacks one. -/
theorem missing_of_grant (hr : (g.grant n).resolved = false) (hs : n.stopping = false) :
    ∃ d ∈ (g.grant n).dependencies, g.exposed? d = none := by
  obtain ⟨hnr, hno⟩ : n.resolved = false ∧ g.canResolve n = false := by simpa [grant] using hr
  rw [grant_of_not hno]
  exact exists_of_not_canResolve hno hnr hs

/-- An operation that exposes nobody anew. -/
theorem Thorough.of_hidden (h : g.Thorough)
    (hexposed : ∀ d, g'.exposed? d = none ∨ g'.exposed? d = g.exposed? d)
    (hnodes : ∀ {m : Name} {n' : Node}, g'.nodes[m]? = some n' → n'.stopping = false →
      ∃ n, g.nodes[m]? = some n ∧ n'.dependencies = n.dependencies ∧ n'.resolved = n.resolved ∧
        n.stopping = false) : g'.Thorough := by
  intro m n' hn' hr hs
  obtain ⟨n, hn, hd, hres, hns⟩ := hnodes hn' hs
  obtain ⟨d, hdep, hnone⟩ := h hn (hres.symm.trans hr) hns
  refine ⟨d, hd ▸ hdep, ?_⟩
  rcases hexposed d with hno | hsame
  · exact hno
  · exact hsame.trans hnone

/-- An operation that stops one service and lets the others be. -/
theorem Thorough.of_stop {k : Node} (h : g.Thorough) (hn : g.nodes[a]? = some n)
    (dependents : List Name)
    (hu : g.Updates g' fun x j => if a = x then k.stop dependents else j) : g'.Thorough := by
  refine h.of_hidden (fun d => ?_) fun {m j'} hj' hs => ?_
  · by_cases had : a = d
    · subst had
      left
      rw [exposed?_eq, hu.nodes, hn]
      simp
    · right
      apply exposed?_congr
      rw [hu.nodes]
      simp [had]
  · obtain ⟨j, hj, rfl⟩ := hu.exists_of_node hj'
    split at hs
    · simp at hs
    · next ham => exact ⟨j, hj, by simp [ham], by simp [ham], hs⟩

theorem Coherent.thorough_requestRemoval (hg : g.Coherent) (h : g.Thorough) (a : Name) :
    (g.requestRemoval a).1.Thorough := by
  cases hn : g.nodes[a]? with
  | none => rwa [requestRemoval_of_none hn]
  | some n =>
      rw [requestRemoval_fst]
      refine h.of_stop (k := n) hn (g.dependentsOf a) ?_
      refine (hg.beginStopping_updates a).congr fun {x k} hk => ?_
      split
      · next hx =>
          subst hx
          rw [Option.some.inj (hn.symm.trans hk)]
      · rfl

/-- Whoever depends on a service that is exposed is looked at. -/
theorem Coherent.thorough_present (hg : g.Coherent) (h : g.Thorough) (hn : g.nodes[a]? = some n)
    (v : Value) : ((g.present a n v).resolveAll (g.dependentsOf a)).1.Thorough := by
  have hexp := exposed?_resolveAll (g.present a n v) (g.dependentsOf a)
  intro m k' hk' hr hs
  simp only [hexp]
  rw [resolveAll_nodes] at hk'
  split at hk'
  · obtain ⟨k, _, rfl⟩ := Option.map_eq_some_iff.mp hk'
    exact missing_of_grant hr hs
  · next hm =>
      -- it does not depend on the service exposed, and lacks what it lacked before
      obtain ⟨k, hk, hdep, hres, hstop⟩ : ∃ k, g.nodes[m]? = some k ∧
          k.dependencies = k'.dependencies ∧ k.resolved = k'.resolved ∧
          k.stopping = k'.stopping := by
        rw [present_nodes] at hk'
        split at hk'
        · next ham =>
            subst ham
            obtain rfl := Option.some.inj hk'
            exact ⟨n, hn, rfl, rfl, rfl⟩
        · exact ⟨k', hk', rfl, rfl, rfl⟩
      obtain ⟨d, hd, hnone⟩ := h hk (hres.trans hr) (hstop.trans hs)
      refine ⟨d, hdep ▸ hd, ?_⟩
      have had : a ≠ d := by
        rintro rfl
        exact hm (hg.mem_dependentsOf.mpr ⟨k, hk, hd⟩)
      rw [← hnone]
      apply exposed?_congr
      rw [present_nodes, if_neg had]

theorem Coherent.thorough_report (hg : g.Coherent) (h : g.Thorough) (a : Name) (state : State)
    (value : Option Value) : (g.report a state value).1.Thorough := by
  cases hn : g.nodes[a]? with
  | none => rwa [report_of_none hn]
  | some n =>
      rcases report_cases hn state value with ⟨_, hr⟩ | ⟨v, rfl, rfl, hs⟩ | ⟨hleave, hne⟩ | rfl
      · rw [hr]
        have hnodes : ∀ x, (g.note a n state).nodes[x]? =
            if a = x then some { n with state } else g.nodes[x]? := fun x => setNode_nodes g a x _
        refine h.of_hidden (fun d => .inr (exposed?_congr ?_)) fun {m k'} hk' hs => ?_
        · rw [hnodes]
          split
          · next had => subst had; rw [hn]; rfl
          · rfl
        · rw [hnodes] at hk'
          split at hk'
          · next ham =>
              subst ham
              obtain rfl := Option.some.inj hk'
              exact ⟨n, hn, rfl, rfl, hs⟩
          · exact ⟨k', hk', rfl, rfl, hs⟩
      · rw [report_started hn hs]
        exact hg.thorough_present h hn v
      · exact h.of_stop (k := { n with state }) hn _
          (hg.report_stop_updates hn hleave hne value)
      · refine h.of_hidden (fun d => ?_) fun {m k'} hk' hs => ?_
        · rw [exposed?_eq, exposed?_eq, hg.report_removed_nodes hn]
          split
          · exact .inl rfl
          · right
            cases g.nodes[d]? <;> rfl
        · obtain ⟨_, k, hk, rfl⟩ := hg.exists_of_report_removed hn hk'
          exact ⟨k, hk, rfl, rfl, hs⟩

theorem thorough_register (h : g.Thorough) {r : Registration} (hr : g.nodes[r.name]? = none)
    (i : Inbox) : (g.register r i).1.Thorough := by
  intro m k' hk' hres hs
  have hexp : ∀ d, (g.register r i).1.exposed? d = g.exposed? d := fun d =>
    (exposed?_resolve _ _ d).trans (exposed?_enter hr i d)
  by_cases hm : r.name = m
  · subst hm
    rw [nodes_register_self, Option.some.injEq] at hk'
    subst hk'
    simp only [hexp, ← exposed?_enter hr i]
    exact missing_of_grant hres rfl
  · rw [nodes_register_of_ne i hm] at hk'
    simp only [hexp]
    exact h hk' hres hs

/-! ## Whoever gets its dependencies does not stop -/

theorem Coherent.awake_report (hg : g.Coherent) (hn : g.nodes[m]? = some n)
    (hn' : (g.report a state value).1.nodes[m]? = some n') (hr : n.resolved = false)
    (hr' : n'.resolved = true) : n'.stopping = false := by
  have hsame : n'.resolved ≠ n.resolved := by simp [hr, hr']
  cases hk : g.nodes[a]? with
  | none =>
      rw [report_of_none hk, hn, Option.some.injEq] at hn'
      exact absurd (hn' ▸ rfl) hsame
  | some k =>
      rcases report_cases hk state value with
        ⟨_, hnote⟩ | ⟨v, rfl, rfl, hs⟩ | ⟨hleave, hne⟩ | rfl
      · rw [hnote, setNode_nodes] at hn'
        split at hn'
        · next ham =>
            subst ham
            obtain rfl := Option.some.inj (hn.symm.trans hk)
            exact absurd (Option.some.inj hn' ▸ rfl) hsame
        · exact absurd (by rw [Option.some.inj (hn.symm.trans hn')]) hsame
      · obtain ⟨j, hj, hjr⟩ : ∃ j, (g.present a k v).nodes[m]? = some j ∧
            j.resolved = n.resolved := by
          rw [present_nodes]
          split
          · next ham =>
              subst ham
              rw [Option.some.inj (hn.symm.trans hk)]
              exact ⟨_, rfl, rfl⟩
          · exact ⟨n, hn, rfl⟩
        rw [report_started hk hs, resolveAll_nodes, hj] at hn'
        split at hn'
        · obtain rfl := Option.some.inj hn'
          have hcan : (g.present a k v).canResolve j = true := by
            simpa [grant, hjr, hr] using hr'
          simp only [canResolve, Bool.and_eq_true, Bool.not_eq_true'] at hcan
          exact hcan.1.2
        · exact absurd (Option.some.inj hn' ▸ hjr) hsame
      · rw [(hg.report_stop_updates hk hleave hne value).nodes, hn] at hn'
        refine absurd ?_ hsame
        obtain rfl := Option.some.inj hn'
        split
        · next ham =>
            subst ham
            rw [Node.stop_resolved, Option.some.inj (hn.symm.trans hk)]
        · rfl
      · rw [hg.report_removed_nodes hk] at hn'
        split at hn'
        · cases hn'
        · rw [hn] at hn'
          exact absurd (Option.some.inj hn' ▸ rfl) hsame

/-! ## How often dependencies are given -/

theorem count_register_le (g : Graph) (r : Registration) (i j : Inbox) :
    (signalsTo j (g.register r i).2).count .dependenciesAvailable ≤ 1 := by
  classical
  rw [signalsTo_register_eq, signalsTo_resolve]
  split <;> simp

theorem Coherent.count_report_le (hg : g.Coherent) (a : Name) (state : State)
    (value : Option Value) (i : Inbox) :
    (signalsTo i (g.report a state value).2).count .dependenciesAvailable ≤ 1 := by
  classical
  cases hn : g.nodes[a]? with
  | none => simp [report_of_none hn]
  | some n =>
      have hnone := List.count_eq_zero.mpr (not_mem_stopSignals g a i)
      rcases report_cases hn state value with ⟨_, hr⟩ | ⟨v, rfl, rfl, hs⟩ | ⟨hleave, hne⟩ | rfl
      · simp [hr]
      · have hd := (present_updates hn v).inboxesDistinct hg.inboxes
        rw [signalsTo_report_started hn hs, signalsTo_resolveAll hd (nodup_dependentsOf g a)]
        split <;> simp
      · rw [report_stop hn hleave hne, hg.signalsTo_note_beginStopping hn, hnone]
        exact Nat.zero_le 1
      · rw [hg.signalsTo_report_removed hn, List.count_append, hnone]
        split <;> simp

end Graph

end ServiceHost
