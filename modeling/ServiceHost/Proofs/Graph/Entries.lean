import ServiceHost.Proofs.Graph.DeliveryProtocol
import ServiceHost.Proofs.Graph.GroupProtocol

/-! # What a service was registered with

What a service depends on, its group, the groups it refers to and where it is told stay as they were
when it was registered, for as long as it is installed. -/

namespace ServiceHost.Graph

variable {g : Graph} {a m : Name} {n n' : Node}

/-- A report leaves everyone it does not remove with the groups of before. -/
theorem Coherent.ties_report (hg : g.Coherent) (hn : g.nodes[a]? = some n) {state : State}
    (value : Option Value) (hm : state = .removed → a ≠ m) :
    (g.report a state value).1.nodes[m]?.map Node.ties = g.nodes[m]?.map Node.ties := by
  by_cases hr : state = .removed
  · have hnode := hg.leaving_nodes hn a
    rw [if_pos rfl] at hnode
    rw [hr, report_removed hn, unregister_eq hnode,
      (agree_strikeAll (fun _ _ => rfl) a _ _).nodes, leave_nodes, if_neg (hm hr)]
    exact ((agree_note hn .removed).trans (agree_beginStopping _ a)).nodes m
  · exact (agree_report hn hr value).nodes m

/-- Two nodes stem from one registration. -/
structure SameEntry (n n' : Node) : Prop where
  inbox : n'.inbox = n.inbox
  dependencies : n'.dependencies = n.dependencies
  group : n'.group = n.group
  references : n'.references = n.references

namespace Trial

variable {t : Trial} {s : TrialStep}

/-- What a step leaves in the graph was there before, or is registered by it. -/
theorem Sound.entry_next (ht : t.Sound) (hn' : (t.next s).graph.nodes[m]? = some n') :
    (∃ n, t.graph.nodes[m]? = some n ∧ SameEntry n n') ∨
      (s = .register m n'.dependencies n'.group n'.references ∧
        n'.inbox = t.inboxes.length) := by
  have hspec := stepSpec ht s
  have hr : ¬s.Removes m := by
    intro hr
    rw [hspec.gone hr] at hn'
    cases hn'
  -- the ties tell that it was there, and the step keeps its dependencies
  have hsame (he : (t.next s).graph.nodes[m]?.map Node.ties = t.graph.nodes[m]?.map Node.ties) :
      ∃ n, t.graph.nodes[m]? = some n ∧ SameEntry n n' := by
    rw [hn', Option.map_some] at he
    obtain ⟨n, hn, hties⟩ := Option.map_eq_some_iff.mp he.symm
    obtain ⟨k, hk, hs⟩ := hspec.survives hn hr
    obtain rfl := Option.some.inj (hn'.symm.trans hk)
    simp only [Node.ties, Prod.mk.injEq] at hties
    exact ⟨n, hn, hs.inbox, hs.dependencies, hties.2.1.symm, hties.2.2.symm⟩
  cases s with
  | contains a | state a | disconnect a => exact .inl ⟨n', hn', rfl, rfl, rfl, rfl⟩
  | remove a =>
      refine .inl (hsame ?_)
      have hties : Agree Node.ties t.graph (t.graph.requestRemoval a).1 :=
        requestRemoval_fst t.graph a ▸ agree_beginStopping t.graph a
      exact hties.nodes m
  | report a state value =>
      refine .inl (hsame ?_)
      cases hn : t.graph.nodes[a]? with
      | none =>
          have hnext : (t.next (.report a state value)).graph = t.graph :=
            congrArg Prod.fst (report_of_none hn state value)
          rw [hnext]
      | some n =>
          refine ht.coherent.ties_report hn value ?_
          rintro rfl rfl
          exact hr (TrialStep.removes_report.mpr ⟨rfl, rfl⟩)
  | register a ds group refs =>
      by_cases hc : t.graph.contains a = true
      · rw [next_register_of_taken hc] at hn'
        exact .inl ⟨n', hn', rfl, rfl, rfl, rfl⟩
      · let r : Registration := ⟨a, ds, group, refs⟩
        have hgraph : (t.next (.register a ds group refs)).graph =
            (t.graph.register r t.inboxes.length).1 := by rw [next_register_of_free hc]
        rw [hgraph] at hn'
        by_cases ham : r.name = m
        · subst ham
          rw [nodes_register_self] at hn'
          obtain rfl := Option.some.inj hn'
          exact .inr ⟨rfl, rfl⟩
        · rw [nodes_register_of_ne _ ham] at hn'
          exact .inl ⟨n', hn', rfl, rfl, rfl, rfl⟩

theorem Sound.entry_foldl (ht : t.Sound) {l : List TrialStep}
    (hn' : (l.foldl next t).graph.nodes[m]? = some n') :
    (∃ n, t.graph.nodes[m]? = some n ∧ SameEntry n n') ∨
      (.register m n'.dependencies n'.group n'.references ∈ l ∧
        t.inboxes.length ≤ n'.inbox) := by
  induction l generalizing t with
  | nil => exact .inl ⟨n', hn', rfl, rfl, rfl, rfl⟩
  | cons s l ih =>
      have hspec := stepSpec ht s
      rcases ih hspec.sound hn' with ⟨k, hk, ha⟩ | ⟨hl, hle⟩
      · rcases ht.entry_next hk with ⟨n, hn, hb⟩ | ⟨hs, hi⟩
        · exact .inl ⟨n, hn, ha.inbox.trans hb.inbox, ha.dependencies.trans hb.dependencies,
            ha.group.trans hb.group, ha.references.trans hb.references⟩
        · rw [← ha.dependencies, ← ha.group, ← ha.references] at hs
          exact .inr ⟨hs ▸ List.mem_cons_self, Nat.le_of_eq (hi.symm.trans ha.inbox.symm)⟩
      · exact .inr ⟨List.mem_cons_of_mem _ hl, Nat.le_trans hspec.grows hle⟩

/-- Whoever is given dependencies in a step is given those it was registered with. -/
theorem Sound.gift_next (ht : t.Sound) {i : Inbox} {values : List (Name × Value)}
    (h : gift i values ∈ t.sends s) : ∃ (m : Name) (n' : Node), (t.next s).graph.nodes[m]? = some n' ∧
      n'.inbox = i ∧ values.map Prod.fst = n'.dependencies.toList := by
  obtain ⟨m, n', hn', hi, _, hav, _⟩ := (giftSpec ht s).supplies h
  exact ⟨m, n', hn', hi, map_fst_of_available? hav⟩

/-- Nobody is given dependencies while services are asked to stop. -/
theorem Sound.not_gift_removes (ht : t.Sound) {i : Inbox} {values : List (Name × Value)}
    (names : List Name) : gift i values ∉ t.trace (names.map .remove) := by
  induction names generalizing t with
  | nil => simp [trace]
  | cons a names ih =>
      rw [List.map_cons, trace, List.mem_append, not_or]
      refine ⟨fun h => ?_, ih (stepSpec ht (.remove a)).sound⟩
      exact ht.coherent.not_mem_requestRemoval a i (signal_of_gift h)

end Trial

end ServiceHost.Graph
