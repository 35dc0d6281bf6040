import ServiceHost.Proofs.Graph.Reports
import ServiceHost.Proofs.Lifecycle

/-! # What an operation means for a service that stays

The node of a service changes along with the signals it is sent: it is resolved when it is given
its dependencies, and released when it is told that its dependents are gone. -/

namespace ServiceHost

namespace Graph

/-- Some signal of a list makes a service stop. -/
def Warned (l : List Signal) : Prop := ∃ x ∈ l, x.Stops

/-- A service is made to stop before it is told that its dependents are gone. -/
def WarnedFirst (l : List Signal) : Prop :=
  ∃ l₁ l₂, l = l₁ ++ l₂ ∧ Warned l₁ ∧ .dependentsStopped ∈ l₂

/-- Some service waits for this one to be removed. -/
def Awaited (g : Graph) (m : Name) : Prop :=
  ∃ (d : Name) (k : Node) (p : Names), g.nodes[d]? = some k ∧ k.pendingDependents = some p ∧ m ∈ p

/-- A node and the one an operation leaves in its place, with the signals its service is sent. -/
structure Carried (n n' : Node) (l : List Signal) : Prop where
  inbox : n'.inbox = n.inbox
  dependencies : n'.dependencies = n.dependencies
  resolved : n'.resolved = true ↔ n.resolved = true ∨ .dependenciesAvailable ∈ l
  released : n'.Released ↔ n.Released ∨ .dependentsStopped ∈ l

/-- What an operation means for each service that is installed before and after it, `left` being
the one it is known of that it is on its way out. -/
structure Passage (g g' : Graph) (sent : List Delivery) (left : Name → Prop) : Prop where
  carried : ∀ {m : Name} {n n' : Node}, g.nodes[m]? = some n → g'.nodes[m]? = some n' →
    Carried n n' (signalsTo n.inbox sent)
  stopping : ∀ {m : Name} {n n' : Node}, g.nodes[m]? = some n → g'.nodes[m]? = some n' →
    n'.stopping = true → n.stopping = true ∨ left m ∨ Warned (signalsTo n.inbox sent)
  awaited : ∀ {m : Name} {n : Node}, g.nodes[m]? = some n → g'.Awaited m →
    g.Awaited m ∨ Warned (signalsTo n.inbox sent)
  released : ∀ {m : Name} {n : Node}, g.nodes[m]? = some n →
    .dependentsStopped ∈ signalsTo n.inbox sent →
    n.stopping = true ∨ left m ∨ WarnedFirst (signalsTo n.inbox sent)

variable {g g' : Graph} {a m : Name} {n n' : Node} {l : List Signal}

theorem not_warned_nil : ¬Warned [] := by
  rintro ⟨_, h, _⟩
  simp at h

@[simp] theorem warned_cons {x : Signal} : Warned (x :: l) ↔ x.Stops ∨ Warned l := by
  simp [Warned]

@[simp] theorem warned_append {l' : List Signal} : Warned (l ++ l') ↔ Warned l ∨ Warned l' := by
  simp only [Warned, List.mem_append]
  constructor
  · rintro ⟨x, h | h, hx⟩
    · exact .inl ⟨x, h, hx⟩
    · exact .inr ⟨x, h, hx⟩
  · rintro (⟨x, h, hx⟩ | ⟨x, h, hx⟩)
    · exact ⟨x, .inl h, hx⟩
    · exact ⟨x, .inr h, hx⟩

/-- A service an operation neither stops nor frees. -/
theorem Carried.of_same (hi : n'.inbox = n.inbox) (hd : n'.dependencies = n.dependencies)
    (hs : n'.stopping = n.stopping) (hp : n'.pendingDependents = n.pendingDependents)
    (hl : .dependentsStopped ∉ l)
    (hr : n'.resolved = true ↔ n.resolved = true ∨ .dependenciesAvailable ∈ l) :
    Carried n n' l where
  inbox := hi
  dependencies := hd
  resolved := hr
  released := by simp [Node.Released, hs, hp, hl]

theorem Coherent.needs_iff (hg : g.Coherent) (hn : g.nodes[m]? = some n) :
    g.Needs n.inbox a ↔ m ∈ g.dependentsOf a := by
  rw [hg.mem_dependentsOf]
  constructor
  · rintro ⟨x, k, hk, hi, ha⟩
    obtain rfl := hg.inboxes hk hn hi
    exact ⟨k, hk, ha⟩
  · rintro ⟨k, hk, ha⟩
    rw [hn, Option.some.injEq] at hk
    exact ⟨m, n, hn, rfl, hk ▸ ha⟩

theorem Coherent.mem_stopSignals (hg : g.Coherent) (hn : g.nodes[m]? = some n) (x : Signal) :
    x ∈ g.stopSignals a n.inbox ↔
      g.Awake a ∧ ((x = .dependenciesUnavailable ∧ m ∈ g.dependentsOf a) ∨
        (x = .dependentsStopped ∧ m = a ∧ g.dependentsOf a = [])) := by
  have hm : g.Hosts a n.inbox ↔ m = a := by
    constructor
    · exact fun h => (hg.inboxes.eq_of_hosts hn h).symm
    · rintro rfl
      exact ⟨n, hn, rfl⟩
  rw [← hg.needs_iff hn, hg.dependentsOf_eq_nil, stopSignals, hm]
  by_cases hawake : g.Awake a
  · by_cases hneeds : g.Needs n.inbox a
    · have hsome : ¬∀ j, ¬g.Needs j a := fun h => h _ hneeds
      simp [hawake, hneeds, hsome]
    · by_cases hlast : m = a ∧ ∀ j, ¬g.Needs j a
      · simp [hawake, hneeds, hlast]
      · simp [hawake, hneeds, hlast]
  · simp [hawake]

section Stop

variable {sent : List Delivery} {left : Name → Prop} {before : List Signal} {k : Node}

/-- What a service is sent when one is stopped, other than that it is to stop itself. -/
theorem Coherent.mem_sent_of_stop (hg : g.Coherent) {i : Inbox}
    (hbefore : ∀ x ∈ before, x = .stopping)
    (hsent : ∀ j, signalsTo j sent = (if i = j then before else []) ++ g.stopSignals a j)
    (hm : g.nodes[m]? = some n) {x : Signal} (hx : x ≠ .stopping) :
    x ∈ signalsTo n.inbox sent ↔
      g.Awake a ∧ ((x = .dependenciesUnavailable ∧ m ∈ g.dependentsOf a) ∨
        (x = .dependentsStopped ∧ m = a ∧ g.dependentsOf a = [])) := by
  have hno : x ∉ if i = n.inbox then before else [] := by
    split
    · exact fun h => hx (hbefore x h)
    · simp
  rw [hsent, List.mem_append, or_iff_right hno, hg.mem_stopSignals hm]

/-- A service that is stopped awaits at most those that depend on it. -/
theorem Updates.awaited_of_stop (hn : g.nodes[a]? = some n) (hs : k.stopping = n.stopping)
    (hp : k.pendingDependents = n.pendingDependents)
    (hu : g.Updates g' fun x j => if a = x then k.stop (g.dependentsOf a) else j)
    (h : g'.Awaited m) : g.Awaited m ∨ (g.Awake a ∧ m ∈ g.dependentsOf a) := by
  obtain ⟨d, k', p, hk', hp', hmp⟩ := h
  rcases hu.eq_or_of_node hk' with ⟨rfl, rfl⟩ | ⟨_, hk⟩
  · cases hst : n.stopping with
    | true =>
        rw [Node.stop, if_pos (hs.trans hst), hp] at hp'
        exact .inl ⟨a, n, p, hn, hp', hmp⟩
    | false =>
        have hks : k.stopping = false := hs.trans hst
        simp only [Node.stop, hks, Bool.false_eq_true, if_false, Node.stopped] at hp'
        split at hp'
        · cases hp'
        · rw [Option.some.injEq] at hp'
          subst hp'
          exact .inr ⟨⟨n, hn, hst⟩, Names.mem_ofList.mp hmp⟩
  · exact .inl ⟨d, k', p, hk, hp', hmp⟩

/-- An operation that stops a service, which is told or is on its way out, and lets the others
be. -/
theorem Coherent.passage_stop (hg : g.Coherent) (hn : g.nodes[a]? = some n)
    (hr : k.resolved = n.resolved) (hs : k.stopping = n.stopping)
    (hp : k.pendingDependents = n.pendingDependents)
    (hu : g.Updates g' fun x j => if a = x then k.stop (g.dependentsOf a) else j)
    (hbefore : before = [.stopping] ∨ (before = [] ∧ left a))
    (hsent : ∀ i, signalsTo i sent =
      (if n.inbox = i then before else []) ++ g.stopSignals a i) : Passage g g' sent left := by
  have hsignals : ∀ {m : Name} {j : Node}, g.nodes[m]? = some j → ∀ {x : Signal}, x ≠ .stopping →
      (x ∈ signalsTo j.inbox sent ↔
        g.Awake a ∧ ((x = .dependenciesUnavailable ∧ m ∈ g.dependentsOf a) ∨
          (x = .dependentsStopped ∧ m = a ∧ g.dependentsOf a = []))) := by
    refine fun hj => hg.mem_sent_of_stop ?_ hsent hj
    rcases hbefore with rfl | ⟨rfl, _⟩ <;> simp
  refine ⟨?_, ?_, ?_, ?_⟩
  · intro m j j' hj hj'
    refine ⟨?_, ?_, ?_, ?_⟩
    · rw [hu.node_eq hj hj', hu.inbox hj]
    · rw [hu.node_eq hj hj', hu.dependencies hj]
    · rw [hsignals hj (by decide)]
      rcases hu.eq_or_of_node hj' with ⟨rfl, rfl⟩ | ⟨_, hj₀⟩
      · rw [hn, Option.some.injEq] at hj
        simp [hr, hj]
      · simp [Option.some.inj (hj.symm.trans hj₀)]
    · rw [hsignals hj (by decide)]
      rcases hu.eq_or_of_node hj' with ⟨rfl, rfl⟩ | ⟨ham, hj₀⟩
      · rw [hn, Option.some.injEq] at hj
        subst hj
        have hreleased : k.Released ↔ n.Released := by simp [Node.Released, hs, hp]
        rw [Node.stop_released, hreleased, hs]
        simp [awake_iff hn]
      · simp [Option.some.inj (hj.symm.trans hj₀), Ne.symm ham]
  · intro m j j' hj hj' hst
    rcases hu.eq_or_of_node hj' with ⟨rfl, rfl⟩ | ⟨_, hj₀⟩
    · rw [hn, Option.some.injEq] at hj
      subst hj
      rcases hbefore with rfl | ⟨_, hleft⟩
      · exact .inr (.inr (by simp [hsent, Signal.Stops]))
      · exact .inr (.inl hleft)
    · exact .inl (Option.some.inj (hj.symm.trans hj₀) ▸ hst)
  · intro m j hj h
    refine (hu.awaited_of_stop hn hs hp h).imp_right ?_
    rintro ⟨hawake, hm⟩
    exact ⟨.dependenciesUnavailable,
      (hsignals hj (by decide)).mpr ⟨hawake, .inl ⟨rfl, hm⟩⟩, .inr rfl⟩
  · intro m j hj hmem
    obtain ⟨hawake, ⟨hx, _⟩ | ⟨_, rfl, hnone⟩⟩ := (hsignals hj (by decide)).mp hmem
    · cases hx
    · rw [hn, Option.some.injEq] at hj
      subst hj
      rcases hbefore with rfl | ⟨_, hleft⟩
      · refine .inr (.inr ⟨[.stopping], g.stopSignals m n.inbox, ?_, ?_, ?_⟩)
        · simp [hsent]
        · simp [Signal.Stops]
        · exact (hg.mem_stopSignals hn _).mpr ⟨hawake, .inr ⟨rfl, rfl, hnone⟩⟩
      · exact .inr (.inl hleft)

end Stop

/-- An operation that sends nothing and leaves the nodes as they are. -/
theorem Passage.refl (g : Graph) (left : Name → Prop) : Passage g g [] left where
  carried := by
    intro m n n' hn hn'
    obtain rfl := Option.some.inj (hn.symm.trans hn')
    exact .of_same rfl rfl rfl rfl (by simp) (by simp)
  stopping := by
    intro m n n' hn hn' hs
    obtain rfl := Option.some.inj (hn.symm.trans hn')
    exact .inl hs
  awaited := fun _ h => .inl h
  released := fun _ h => by simp at h

theorem Coherent.passage_requestRemoval (hg : g.Coherent) (a : Name) :
    Passage g (g.requestRemoval a).1 (g.requestRemoval a).2 fun _ => False := by
  cases hn : g.nodes[a]? with
  | none =>
      rw [requestRemoval_of_none hn]
      exact .refl g _
  | some n =>
      refine hg.passage_stop (k := n) hn rfl rfl rfl ?_ (.inl rfl) fun i => ?_
      · rw [requestRemoval_fst]
        apply (hg.beginStopping_updates a).congr
        intro x j hj
        split
        · next h => subst h; rw [hn, Option.some.injEq] at hj; rw [hj]
        · rfl
      · rw [signalsTo_requestRemoval hn, hg.signalsTo_beginStopping_eq]

/-- A report of a service that is not on its way out delivers dependencies at most. -/
theorem Coherent.passage_report_stay (hg : g.Coherent) {state : State} (h : ¬state.Leaving)
    (value : Option Value) (left : Name → Prop) :
    Passage g (g.report a state value).1 (g.report a state value).2 left := by
  cases hn : g.nodes[a]? with
  | none =>
      rw [report_of_none hn]
      exact .refl g left
  | some n =>
      obtain ⟨f, hu, hf⟩ := report_stay_updates hn h value
      have hsignals := fun i => hg.mem_signalsTo_report (a := a) h value (i := i)
      have hno : ∀ i, .dependentsStopped ∉ signalsTo i (g.report a state value).2 :=
        fun i h => nomatch hsignals i _ h
      refine ⟨?_, ?_, ?_, ?_⟩
      · intro m j j' hj hj'
        have hres := hg.resolved_report_stay hn h value hj hj'
        obtain rfl := hu.node_eq hj hj'
        exact .of_same (hu.inbox hj) (hu.dependencies hj) (hf hj).1 (hf hj).2 (hno _) hres
      · intro m j j' hj hj' hs
        obtain rfl := hu.node_eq hj hj'
        exact .inl ((hf hj).1 ▸ hs)
      · rintro m j hj ⟨d, k', p, hk', hp, hmp⟩
        obtain ⟨k, hk, rfl⟩ := hu.exists_of_node hk'
        exact .inl ⟨d, k, p, hk, (hf hk).2 ▸ hp, hmp⟩
      · exact fun _ h => absurd h (hno _)

theorem Coherent.passage_report_stop (hg : g.Coherent) {state : State} (h : state.Leaving)
    (hr : state ≠ .removed) (value : Option Value) :
    Passage g (g.report a state value).1 (g.report a state value).2 (· = a) := by
  cases hn : g.nodes[a]? with
  | none =>
      rw [report_of_none hn]
      exact .refl g _
  | some n =>
      refine hg.passage_stop (k := { n with state }) hn rfl rfl rfl
        (hg.report_stop_updates hn h hr value) (.inr ⟨rfl, rfl⟩) fun i => ?_
      rw [report_stop hn h hr, hg.signalsTo_note_beginStopping hn]
      simp

open Classical in
/-- The report of a removal frees whoever awaited no one else. -/
theorem Coherent.passage_report_removed (hg : g.Coherent) (value : Option Value) :
    Passage g (g.report a .removed value).1 (g.report a .removed value).2 (· = a) := by
  cases hn : g.nodes[a]? with
  | none =>
      rw [report_of_none hn]
      exact .refl g _
  | some n =>
      have hmem : ∀ {m : Name} {j : Node}, g.nodes[m]? = some j → ∀ x,
          x ∈ signalsTo j.inbox (g.report a .removed value).2 ↔
            x ∈ g.stopSignals a j.inbox ∨
              (x = .dependentsStopped ∧ m ≠ a ∧ j.AwaitsOnly a) := by
        intro m j hj x
        have hiff : (∃ y, y ≠ a ∧ ∃ k, g.nodes[y]? = some k ∧ k.inbox = j.inbox ∧
            k.AwaitsOnly a) ↔ m ≠ a ∧ j.AwaitsOnly a := by
          constructor
          · rintro ⟨y, hy, k, hk, hi, haw⟩
            obtain rfl := hg.inboxes hk hj hi
            rw [hk, Option.some.injEq] at hj
            exact ⟨hy, hj ▸ haw⟩
          · rintro ⟨hm, haw⟩
            exact ⟨m, hm, j, hj, rfl, haw⟩
        rw [hg.signalsTo_report_removed hn, List.mem_append, if_congr hiff rfl rfl]
        split
        · next h => simp [h]
        · next h => simp only [List.not_mem_nil, h, and_false]
      refine ⟨?_, ?_, ?_, ?_⟩
      · intro m j j' hj hj'
        obtain ⟨ham, j₀, hj₀, rfl⟩ := hg.exists_of_report_removed hn hj'
        obtain rfl := Option.some.inj (hj.symm.trans hj₀)
        refine ⟨rfl, rfl, ?_, ?_⟩
        · simp [hmem hj, hg.mem_stopSignals hj, Node.strike]
        · simp only [hmem hj, hg.mem_stopSignals hj, Ne.symm ham, true_and, reduceCtorEq,
            false_and, and_false, or_false, false_or, ne_eq, not_false_eq_true]
          cases hp : j.pendingDependents with
          | none => simp [Node.Released, Node.strike, Node.AwaitsOnly, hp]
          | some p =>
              have hst := (hg.pending hj hp).1
              simp only [Node.Released, Node.strike, Node.AwaitsOnly, hp, hst, Option.bind_some,
                Option.some.injEq, exists_eq_left', reduceCtorEq, and_false, false_or, true_and]
              generalize p.erase a = q
              split
              · next h => simpa using Std.ExtTreeSet.isEmpty_iff.mp h
              · next h => simpa using h
      · intro m j j' hj hj' hs
        obtain ⟨_, j₀, hj₀, rfl⟩ := hg.exists_of_report_removed hn hj'
        obtain rfl := Option.some.inj (hj.symm.trans hj₀)
        exact .inl hs
      · rintro m j hj ⟨d, k', p, hk', hp, hmp⟩
        obtain ⟨_, k, hk, rfl⟩ := hg.exists_of_report_removed hn hk'
        obtain ⟨_, q, hq, hmq⟩ := (Node.mem_strike hp).mp hmp
        exact .inl ⟨d, k, q, hk, hq, hmq⟩
      · intro m j hj h
        rcases (hmem hj _).mp h with h | ⟨_, _, p, hp, _⟩
        · have := ((hg.mem_stopSignals hj _).mp h).2
          exact .inr (.inl (by simp_all))
        · exact .inl (hg.pending hj hp).1

/-- The report of any state by the service itself. -/
theorem Coherent.passage_report (hg : g.Coherent) (state : State) (value : Option Value) :
    Passage g (g.report a state value).1 (g.report a state value).2
      fun m => m = a ∧ state.Leaving := by
  by_cases h : state.Leaving
  · simp only [h, and_true]
    by_cases hr : state = .removed
    · subst hr
      exact hg.passage_report_removed value
    · exact hg.passage_report_stop h hr value
  · exact hg.passage_report_stay h value _

/-- Registration does not touch the services there are, and delivers to the new one at most. -/
theorem passage_register {r : Registration}
    (hr : g.nodes[r.name]? = none) {i : Inbox} (hi : ∀ m, ¬g.Hosts m i) :
    Passage g (g.register r i).1 (g.register r i).2 fun _ => False := by
  have hnone : ∀ {m : Name} {n : Node}, g.nodes[m]? = some n →
      signalsTo n.inbox (g.register r i).2 = [] := by
    intro m n hn
    rw [signalsTo_register_eq, signalsTo_resolve, if_neg]
    rintro ⟨k, hk, hki, _⟩
    rw [enter_nodes, if_pos rfl, Option.some.injEq] at hk
    subst hk
    exact hi m ⟨n, hn, hki.symm⟩
  have hold : ∀ {m : Name}, r.name ≠ m →
      (g.register r i).1.nodes[m]? = g.nodes[m]? := by
    intro m hm
    rw [register_fst, resolve_nodes, if_neg hm, enter_nodes, if_neg hm]
  have hname : ∀ {m : Name} {n : Node}, g.nodes[m]? = some n → r.name ≠ m := by
    rintro m n hn rfl
    simp [hr] at hn
  refine ⟨?_, ?_, ?_, ?_⟩
  · intro m n n' hn hn'
    rw [hold (hname hn), hn, Option.some.injEq] at hn'
    subst hn'
    simp only [hnone hn]
    exact .of_same rfl rfl rfl rfl (by simp) (by simp)
  · intro m n n' hn hn' hs
    rw [hold (hname hn), hn, Option.some.injEq] at hn'
    exact .inl (hn' ▸ hs)
  · rintro m n hn ⟨d, k, p, hk, hp, hm⟩
    by_cases hd : r.name = d
    · subst hd
      rw [register_fst, resolve_nodes, if_pos rfl, enter_nodes, if_pos rfl] at hk
      obtain ⟨j, hj, rfl⟩ := Option.map_eq_some_iff.mp hk
      obtain rfl := Option.some.inj hj
      simp [grant, Registration.node] at hp
    · rw [hold hd] at hk
      exact .inl ⟨d, k, p, hk, hp, hm⟩
  · intro m n hn h
    simp [hnone hn] at h

@[simp] theorem grant_inbox (g : Graph) (n : Node) : (g.grant n).inbox = n.inbox := rfl

/-- The service just registered is given its dependencies at most. -/
theorem signalsTo_register_self (g : Graph) (r : Registration) (i : Inbox) :
    signalsTo i (g.register r i).2 =
      if (g.enter r i).canResolve (r.node i) = true then [.dependenciesAvailable] else [] := by
  classical
  rw [signalsTo_register_eq, signalsTo_resolve]
  have hself : (g.enter r i).nodes[r.name]? = some (r.node i) := by rw [enter_nodes, if_pos rfl]
  have hiff : (∃ n, (g.enter r i).nodes[r.name]? = some n ∧ n.inbox = i ∧
      (g.enter r i).canResolve n = true) ↔ (g.enter r i).canResolve (r.node i) = true := by
    rw [hself]
    constructor
    · rintro ⟨n, hn, _, hc⟩
      exact Option.some.inj hn ▸ hc
    · exact fun hc => ⟨_, rfl, rfl, hc⟩
  exact if_congr hiff rfl rfl

theorem carried_register (g : Graph) (r : Registration) (i : Inbox) :
    Carried (r.node i) ((g.enter r i).grant (r.node i)) (signalsTo i (g.register r i).2) := by
  have hr : (r.node i).resolved = false := rfl
  rw [signalsTo_register_self g r i]
  cases hc : (g.enter r i).canResolve (r.node i) <;>
    exact .of_same rfl rfl rfl rfl (by simp) (by simp [grant, hc, hr])

/-- Nobody waits for a service just registered to be removed. -/
theorem Coherent.not_awaited_register (hg : g.Coherent) {r : Registration}
    (hr : g.nodes[r.name]? = none) (i : Inbox) : ¬(g.register r i).1.Awaited r.name := by
  rintro ⟨d, k, p, hk, hp, hm⟩
  rw [register_fst, resolve_nodes, enter_nodes] at hk
  by_cases hd : r.name = d
  · rw [if_pos hd, if_pos hd] at hk
    obtain ⟨j, hj, rfl⟩ := Option.map_eq_some_iff.mp hk
    obtain rfl := Option.some.inj hj
    simp [grant, Registration.node] at hp
  · rw [if_neg hd, if_neg hd] at hk
    obtain ⟨j, hj, _⟩ := (hg.pending hk hp).2.2 r.name hm
    simp [hr] at hj

/-- A service whose dependencies are there already is told who is in its groups, then given what it
depends on; no one else is told anything. -/
theorem register_resolved {g : Graph} {r : Registration} (hr : g.nodes[r.name]? = none) (i : Inbox)
    {values : List (Name × Value)} (h : g.available? r.dependencies = some values) :
    ∃ updates : List GroupUpdate, (g.register r i).2 =
      (updates.map Message.reference ++ [Message.lifecycle (.dependenciesAvailable values)]).map
        (Delivery.mk i) := by
  have hself : (g.enter r i).nodes[r.name]? = some (r.node i) := by rw [enter_nodes, if_pos rfl]
  have havailable : (g.enter r i).available? (r.node i).dependencies = some values := by
    rw [available?_congr (exposed?_enter hr i)]
    exact h
  have hcan : (g.enter r i).canResolve (r.node i) = true := by
    simp only [canResolve, havailable]
    rfl
  have hsent : ((g.enter r i).resolve r.name).2 =
      [⟨i, .lifecycle (.dependenciesAvailable values)⟩] := by
    rw [resolve_eq _ _ _ hself, if_pos hcan, havailable]
    rfl
  refine ⟨r.references.toList.flatMap fun group =>
    (g.exposedMembers group).map fun p => .added group p.1 p.2, ?_⟩
  rw [List.map_append, List.map_singleton, ← hsent]
  simp only [List.map_flatMap, List.map_map]
  rfl

theorem Trial.messagesTo_map (i j : Inbox) (messages : List Message) :
    Trial.messagesTo j (messages.map (Delivery.mk i)) = if i = j then messages else [] := by
  simp only [Trial.messagesTo, List.filter_map, List.map_map]
  by_cases hj : i = j <;> simp [Function.comp_def, hj]

end Graph

end ServiceHost
