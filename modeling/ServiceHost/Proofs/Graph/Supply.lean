import ServiceHost.Proofs.Graph.Passage

/-! # What is given to whom

A service is given its dependencies together with what they expose, by the operation that resolves
it and by no other. -/

namespace ServiceHost

namespace Graph

/-- The delivery of dependencies with their values. -/
def gift (i : Inbox) (values : List (Name × Value)) : Delivery :=
  ⟨i, .lifecycle (.dependenciesAvailable values)⟩

theorem mem_messagesTo {i : Inbox} {message : Message} {sent : List Delivery} :
    message ∈ Trial.messagesTo i sent ↔ (⟨i, message⟩ : Delivery) ∈ sent := by
  simp only [Trial.messagesTo, List.mem_map, List.mem_filter, decide_eq_true_eq]
  constructor
  · rintro ⟨⟨_, _⟩, ⟨hd, rfl⟩, rfl⟩
    exact hd
  · exact fun hd => ⟨_, ⟨hd, rfl⟩, rfl⟩

theorem signal_of_gift {i : Inbox} {values : List (Name × Value)} {sent : List Delivery}
    (h : gift i values ∈ sent) : .dependenciesAvailable ∈ signalsTo i sent :=
  List.mem_filterMap.mpr ⟨_, mem_messagesTo.mpr h, rfl⟩

theorem exists_gift {i : Inbox} {sent : List Delivery}
    (h : .dependenciesAvailable ∈ signalsTo i sent) : ∃ values, gift i values ∈ sent := by
  obtain ⟨message, hm, hs⟩ := List.mem_filterMap.mp h
  rw [mem_messagesTo] at hm
  cases message with
  | reference u => cases hs
  | lifecycle e =>
      cases e <;> cases hs
      exact ⟨_, hm⟩

/-- Whom an operation gives its dependencies, and what they expose afterwards. -/
def Supplies (g g' : Graph) (sent : List Delivery) : Prop :=
  ∀ {i : Inbox} {values : List (Name × Value)}, gift i values ∈ sent →
    ∃ (m : Name) (n' : Node), g'.nodes[m]? = some n' ∧ n'.inbox = i ∧ n'.resolved = true ∧
      g'.available? n'.dependencies = some values ∧
      ∀ n, g.nodes[m]? = some n → n.resolved = false

variable {g g' : Graph} {a m : Name} {n : Node} {i : Inbox} {values : List (Name × Value)}

theorem supplies_of_not {sent : List Delivery}
    (h : ∀ i, .dependenciesAvailable ∉ signalsTo i sent) : Supplies g g' sent :=
  fun hgift => absurd (signal_of_gift hgift) (h _)

/-- The one service a delivery is for: it lacked nothing but the delivery. -/
def Deserves (g : Graph) (m : Name) (i : Inbox) (values : List (Name × Value)) : Prop :=
  ∃ n : Node, g.nodes[m]? = some n ∧ n.inbox = i ∧ n.resolved = false ∧
    g.canResolve n = true ∧ g.available? n.dependencies = some values

theorem deserves_of_resolve (h : gift i values ∈ (g.resolve m).2) : g.Deserves m i values := by
  cases hn : g.nodes[m]? with
  | none => simp [resolve, hn] at h
  | some n =>
      rw [resolve_eq g m n hn] at h
      split at h
      · next hc =>
          simp only [gift, List.mem_singleton, Delivery.mk.injEq, Message.lifecycle.injEq,
            Event.dependenciesAvailable.injEq] at h
          obtain ⟨rfl, rfl⟩ := h
          have hcan := hc
          simp only [canResolve, Bool.and_eq_true, Bool.not_eq_true', Option.isSome_iff_exists]
            at hcan
          obtain ⟨⟨hr, _⟩, v, hv⟩ := hcan
          exact ⟨n, hn, rfl, hr, hc, by simp [hv]⟩
      · simp at h

theorem deserves_of_resolveAll {names : List Name} (h : gift i values ∈ (g.resolveAll names).2) :
    ∃ m ∈ names, g.Deserves m i values := by
  induction names generalizing g with
  | nil => simp [resolveAll] at h
  | cons m names ih =>
      simp only [resolveAll, List.mem_append] at h
      rcases h with h | h
      · exact ⟨m, List.mem_cons_self, deserves_of_resolve h⟩
      · obtain ⟨x, hx, n, hn, hi, hr, hc, hv⟩ := ih h
        have hexp := exposed?_resolve g m
        rw [canResolve_congr hexp] at hc
        rw [available?_congr hexp] at hv
        refine ⟨x, List.mem_cons_of_mem _ hx, ?_⟩
        rw [resolve_nodes] at hn
        split at hn
        · -- whoever was resolved already deserves no second delivery
          obtain ⟨k, hk, rfl⟩ := Option.map_eq_some_iff.mp hn
          have hno : g.canResolve k = false := (Bool.or_eq_false_iff.mp hr).2
          rw [grant_of_not hno] at hi hr hc hv
          exact ⟨k, hk, hi, hr, hc, hv⟩
        · exact ⟨n, hn, hi, hr, hc, hv⟩

theorem supplies_register (g : Graph) (r : Registration) (i : Inbox)
    (hr : g.nodes[r.name]? = none) : Supplies g (g.register r i).1 (g.register r i).2 := by
  intro j values h
  have hgift : gift j values ∈ ((g.enter r i).resolve r.name).2 := by
    simp only [register, List.mem_append, List.mem_flatMap, List.mem_map] at h
    rcases h with ⟨_, _, _, _, h⟩ | h
    · simp [gift] at h
    · exact h
  obtain ⟨n, hn, hi, _, hc, hv⟩ := deserves_of_resolve hgift
  refine ⟨r.name, (g.enter r i).grant n, ?_, hi, ?_, ?_, by simp [hr]⟩
  · rw [register_fst, resolve_nodes, if_pos rfl, hn, Option.map_some]
  · simp [grant, hc]
  · rw [register_fst, available?_congr (exposed?_resolve _ _)]
    exact hv

theorem not_mem_stopSignals (g : Graph) (a : Name) (i : Inbox) :
    .dependenciesAvailable ∉ g.stopSignals a i := by
  unfold stopSignals
  split
  · split
    · simp
    · split <;> simp
  · simp

theorem Coherent.not_mem_requestRemoval (hg : g.Coherent) (a : Name) (i : Inbox) :
    .dependenciesAvailable ∉ signalsTo i (g.requestRemoval a).2 := by
  intro hx
  cases hn : g.nodes[a]? with
  | none => simp [requestRemoval_of_none hn] at hx
  | some n =>
      rw [signalsTo_requestRemoval hn, hg.signalsTo_beginStopping_eq, List.mem_append] at hx
      rcases hx with hx | hx
      · split at hx <;> simp at hx
      · exact not_mem_stopSignals g a i hx

theorem gift_of_exposeStarted (hn : g.nodes[a]? = some n) (hs : n.stopping = false) {v : Value}
    (h : gift i values ∈ (g.exposeStarted a (some v)).2) :
    gift i values ∈ ((g.setNode a { n with value := some v }).resolveAll (g.dependentsOf a)).2 := by
  simp only [exposeStarted, hn, hs, Bool.false_eq_true, if_false, List.mem_append,
    List.mem_flatMap, notifyAll, List.mem_filterMap, Option.map_eq_some_iff] at h
  rcases h with h | ⟨_, _, _, _, _, _, h⟩
  · rw [hs]
    exact h
  · simp [gift] at h

theorem gift_of_report_started (hn : g.nodes[a]? = some n) (hs : n.stopping = false) {v : Value}
    (h : gift i values ∈ (g.report a .started (some v)).2) :
    gift i values ∈ ((g.present a n v).resolveAll (g.dependentsOf a)).2 := by
  have hnote : (g.note a n .started).nodes[a]? = some { n with state := .started } := by
    simp [note, setNode_nodes]
  have hdep := (note_updates hn .started).dependentsOf a
  simp only [report, hn] at h
  have hexpose := gift_of_exposeStarted hnote hs h
  rw [setNode_setNode, hdep] at hexpose
  exact hexpose

theorem Coherent.supplies_report (hg : g.Coherent) (a : Name) (state : State)
    (value : Option Value) : Supplies g (g.report a state value).1 (g.report a state value).2 := by
  classical
  cases hn : g.nodes[a]? with
  | none =>
      rw [report_of_none hn]
      exact supplies_of_not (by simp)
  | some n =>
      by_cases hleave : state.Leaving
      · apply supplies_of_not
        intro i hx
        by_cases hr : state = .removed
        · subst hr
          rw [hg.signalsTo_report_removed hn, List.mem_append] at hx
          rcases hx with hx | hx
          · exact not_mem_stopSignals g a i hx
          · split at hx <;> simp at hx
        · rw [report_stop hn hleave hr, hg.signalsTo_note_beginStopping hn] at hx
          exact not_mem_stopSignals g a i hx
      · by_cases hphase : state.phase < 2
        · rw [report_early hn hphase]
          exact supplies_of_not (by simp)
        · obtain rfl : state = .started := by
            cases state <;> simp_all [State.Leaving, State.phase]
          by_cases hno : n.stopping = true ∨ value = none
          · rw [report_started_of_not hn hno]
            exact supplies_of_not (by simp)
          · push Not at hno
            obtain ⟨v, rfl⟩ := Option.ne_none_iff_exists'.mp hno.2
            have hs := Bool.eq_false_iff.mpr hno.1
            intro h
            obtain ⟨m, hm, k, hk, hi, hr, hc, hv⟩ :=
              deserves_of_resolveAll (gift_of_report_started hn hs h)
            have hexp := exposed?_resolveAll (g.present a n v) (g.dependentsOf a)
            rw [report_started hn hs]
            refine ⟨m, (g.present a n v).grant k, ?_, hi, by simp [grant, hc], ?_, ?_⟩
            · rw [resolveAll_nodes, if_pos hm, hk, Option.map_some]
            · rw [available?_congr hexp]
              exact hv
            · -- the service reported differs in what it exposes only
              intro j hj
              rw [present_nodes] at hk
              split at hk
              · next ham =>
                  subst ham
                  rw [hn, Option.some.injEq] at hj
                  rw [← hj, ← hr, ← Option.some.inj hk]
              · rw [hj, Option.some.injEq] at hk
                rw [hk, hr]

end Graph

end ServiceHost
