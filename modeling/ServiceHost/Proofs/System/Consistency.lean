import ServiceHost.Proofs.Graph.Shown
import ServiceHost.Proofs.System.Links

/-! # The graph and the controllers agree

Every service in the graph has a controller that goes on where the graph left it, and every other
controller is done. Each operation of the container and each turn of a controller keeps it so. -/

namespace ServiceHost

open ServiceHost.Graph (Carried Passage signalsTo Warned WarnedFirst Shown)

/-- The graph, the requests before the container, and the controllers agree. -/
structure Consistent (g : Graph) (inbox : List Request) (controllers : List Controller) :
    Prop where
  ordered : g.Ordered
  linked : ∀ {m : Name} {n : Node}, g.nodes[m]? = some n →
    ∃ c : Controller, controllers[n.inbox]? = some c ∧ Linked m n c (reportsOf m inbox)
  doomed : ∀ {m : Name} {n : Node} {c : Controller}, g.nodes[m]? = some n →
    controllers[n.inbox]? = some c → n.stopping = true ∨ g.Awaited m → c.Doomed
  gone : ∀ {i : Nat} {c : Controller}, controllers[i]? = some c → (∀ m, ¬g.Hosts m i) →
    c.state = .removed
  silent : ∀ {m : Name}, g.nodes[m]? = none → reportsOf m inbox = []

/-- A controller that has ended is removed. -/
def EndsRemoved (controllers : List Controller) : Prop :=
  ∀ {i : Nat} {c : Controller}, controllers[i]? = some c → c.ended = true → c.state = .removed

variable {g g' : Graph} {inbox inbox' : List Request} {controllers controllers' : List Controller}
  {sent : List Delivery} {left : Name → Prop}

theorem messagesTo_signals (i : Inbox) (sent : List Delivery) :
    (Graph.Trial.messagesTo i sent).filterMap Message.signal? = signalsTo i sent := rfl

namespace Consistent

/-- Only the reports before the container count. -/
theorem congr (h : Consistent g inbox controllers)
    (hr : ∀ m, reportsOf m inbox' = reportsOf m inbox) : Consistent g inbox' controllers := by
  refine ⟨h.ordered, ?_, h.doomed, h.gone, ?_⟩
  · intro m n hn
    rw [hr]
    exact h.linked hn
  · intro m hn
    rw [hr]
    exact h.silent hn

/-- The dependencies of a service that was given them are in use. -/
theorem inUse (h : Consistent g inbox controllers) {m d : Name} {n : Node}
    (hn : g.nodes[m]? = some n) (hr : n.resolved = true) (hd : d ∈ n.dependencies) :
    ∃ (k : Node) (b : Controller), g.nodes[d]? = some k ∧ controllers[k.inbox]? = some b ∧
      b.state.InUse := by
  obtain ⟨k, hk, huse, hpending⟩ := h.ordered.anchored hn hr hd
  obtain ⟨b, hb, hl⟩ := h.linked hk
  have hawaits : ¬k.Released := by
    rintro ⟨hstop, hnone⟩
    obtain ⟨p, hp, _⟩ := hpending hstop
    simp [hnone] at hp
  exact ⟨k, b, hk, hb, hl.inUse hawaits k.state (Node.mem_outlook.mpr (.inl rfl)) huse⟩

theorem reportsOf_cons_of_ticket {m : Name} {r : Request} (hr : r.ticket?.isSome = true)
    (l : List Request) : reportsOf m (r :: l) = reportsOf m l := by
  cases r <;> first | rfl | simp [Request.ticket?] at hr

/-- The node of an installed service and its controller after an operation. -/
theorem linked_passage (h : Consistent g inbox controllers) (hended : EndsRemoved controllers)
    (hp : Passage g g' sent left)
    (hleft : ∀ {m : Name} {n : Node} {c : Controller}, left m → g.nodes[m]? = some n →
      controllers[n.inbox]? = some c → c.Doomed)
    {m : Name} {n n' : Node} {c : Controller} {r : List (State × Option Value)} {state : State}
    {value : Option Value} (hn : g.nodes[m]? = some n) (hn' : g'.nodes[m]? = some n')
    (hc : controllers[n.inbox]? = some c) (hl : Linked m { n with state } c r)
    (hs : Shown n n' state value) (hv : state = .started → value.isSome = true →
      value = some c.plan.value) :
    Linked m n' (c.told (Graph.Trial.messagesTo n.inbox sent)) r := by
  have hcarried : Carried { n with state } n' (signalsTo n.inbox sent) :=
    let hk := hp.carried hn hn'
    ⟨hk.inbox, hk.dependencies, hk.resolved, hk.released⟩
  refine hl.carry (hended hc) hcarried hs.state ?_ ?_
  · intro v hval
    rcases hs.value with hnone | hsame | ⟨hstarted, hshown⟩
    · simp [hnone] at hval
    · exact hl.value v (hsame ▸ hval)
    · rw [hval] at hshown
      have := hv hstarted (by simp [← hshown])
      simpa [← hshown] using this
  · intro hx
    rcases hp.released hn hx with hst | hlm | hw
    · exact .inl (h.doomed hn hc (.inl hst))
    · exact .inl (hleft hlm hn hc)
    · exact .inr hw

/-- Whoever is stopping or awaited after an operation was so before, or is told to stop. -/
theorem doomed_passage (h : Consistent g inbox controllers) (hended : EndsRemoved controllers)
    (hp : Passage g g' sent left)
    (hleft : ∀ {m : Name} {n : Node} {c : Controller}, left m → g.nodes[m]? = some n →
      controllers[n.inbox]? = some c → c.Doomed)
    {m : Name} {n n' : Node} {c : Controller} (hn : g.nodes[m]? = some n)
    (hn' : g'.nodes[m]? = some n') (hc : controllers[n.inbox]? = some c)
    (hst : n'.stopping = true ∨ g'.Awaited m) :
    (c.told (Graph.Trial.messagesTo n.inbox sent)).Doomed := by
  have hcases : (n.stopping = true ∨ g.Awaited m) ∨ left m ∨ Warned (signalsTo n.inbox sent) := by
    rcases hst with hst | hst
    · rcases hp.stopping hn hn' hst with hst | hst | hst
      · exact .inl (.inl hst)
      · exact .inr (.inl hst)
      · exact .inr (.inr hst)
    · rcases hp.awaited hn hst with hst | hst
      · exact .inl (.inr hst)
      · exact .inr (.inr hst)
  rcases hcases with hst | hlm | hw
  · exact (h.doomed hn hc hst).told _
  · exact (hleft hlm hn hc).told _
  · exact Controller.doomed_told (hended hc) hw

/-! ## Operations of the container -/

/-- An operation on the services there are, each of which goes on with the reports that are left. -/
theorem of_passage (h : Consistent g inbox controllers) (hended : EndsRemoved controllers)
    (hp : Passage g g' sent left) (ho : g'.Ordered)
    (hleft : ∀ {m : Name} {n : Node} {c : Controller}, left m → g.nodes[m]? = some n →
      controllers[n.inbox]? = some c → c.Doomed)
    (hc' : ∀ j : Nat, controllers'[j]? =
      controllers[j]?.map (·.told (Graph.Trial.messagesTo j sent)))
    (hnew : ∀ {m : Name} {n' : Node}, g'.nodes[m]? = some n' →
      ∃ (n : Node) (c : Controller) (state : State) (value : Option Value),
        g.nodes[m]? = some n ∧ controllers[n.inbox]? = some c ∧
        Linked m { n with state } c (reportsOf m inbox') ∧ Shown n n' state value ∧
        (state = .started → value.isSome = true → value = some c.plan.value))
    (hgone : ∀ {i : Nat} {c : Controller}, controllers[i]? = some c → (∀ m, ¬g'.Hosts m i) →
      c.state = .removed)
    (hsilent : ∀ {m : Name}, g'.nodes[m]? = none → reportsOf m inbox' = []) :
    Consistent g' inbox' controllers' where
  ordered := ho
  linked := by
    intro m n' hn'
    obtain ⟨n, c, state, value, hn, hc, hl, hs, hv⟩ := hnew hn'
    refine ⟨_, by rw [(hp.carried hn hn').inbox, hc', hc, Option.map_some], ?_⟩
    exact h.linked_passage hended hp hleft hn hn' hc hl hs hv
  doomed := by
    intro m n' c' hn' hc₁ hst
    obtain ⟨n, c, _, _, hn, hc, _, _, _⟩ := hnew hn'
    rw [(hp.carried hn hn').inbox, hc', hc, Option.map_some, Option.some.injEq] at hc₁
    exact hc₁ ▸ h.doomed_passage hended hp hleft hn hn' hc hst
  gone := by
    intro i c' hc₁ hno
    rw [hc'] at hc₁
    obtain ⟨c, hc, rfl⟩ := Option.map_eq_some_iff.mp hc₁
    rw [c.told_state]
    exact hgone hc hno
  silent := hsilent

theorem requestRemoval (h : Consistent g inbox controllers) (hended : EndsRemoved controllers)
    (a : Name) (hc' : ∀ j : Nat, controllers'[j]? = controllers[j]?.map
      (·.told (Graph.Trial.messagesTo j (g.requestRemoval a).2))) :
    Consistent (g.requestRemoval a).1 inbox controllers' := by
  have hg := h.ordered.coherent
  have hp := hg.passage_requestRemoval a
  refine h.of_passage hended hp (h.ordered.requestRemoval a) (fun h => h.elim) hc' ?_ ?_ ?_
  · intro m n' hn'
    obtain ⟨n, hn⟩ := hg.exists_of_requestRemoval hn'
    obtain ⟨k, hk, hs⟩ := hg.shown_requestRemoval (a := a) hn
    rw [hn', Option.some.injEq] at hk
    obtain ⟨c, hc, hl⟩ := h.linked hn
    exact ⟨n, c, n.state, none, hn, hc, hl, hk ▸ hs, by simp⟩
  · intro i c hc hno
    refine h.gone hc ?_
    rintro m ⟨n, hn, hi⟩
    obtain ⟨n', hn', _⟩ := hg.shown_requestRemoval (a := a) hn
    exact hno m ⟨n', hn', (hp.carried hn hn').inbox.trans hi⟩
  · intro m hm
    refine h.silent ?_
    by_contra hn
    obtain ⟨n, hn⟩ := Option.ne_none_iff_exists'.mp hn
    obtain ⟨n', hn', _⟩ := hg.shown_requestRemoval (a := a) hn
    simp [hm] at hn'

theorem reportsOf_cons_self (m : Name) (state : State) (value : Option Value) (l : List Request) :
    reportsOf m (.report m state value :: l) = (state, value) :: reportsOf m l := by
  simp [reportsOf]

theorem reportsOf_cons_of_ne {a m : Name} (h : a ≠ m) (state : State) (value : Option Value)
    (l : List Request) : reportsOf m (.report a state value :: l) = reportsOf m l := by
  simp [reportsOf, h]

section Report

variable {a : Name} {state : State} {value : Option Value}

/-- Whoever reports is installed. -/
theorem linked_report (h : Consistent g (.report a state value :: inbox) controllers) :
    ∃ (k : Node) (b : Controller), g.nodes[a]? = some k ∧ controllers[k.inbox]? = some b ∧
      Linked a k b ((state, value) :: reportsOf a inbox) := by
  obtain ⟨k, ha⟩ : ∃ k, g.nodes[a]? = some k := by
    rw [← Option.ne_none_iff_exists']
    intro hnone
    have hsilent := h.silent hnone
    rw [reportsOf_cons_self] at hsilent
    cases hsilent
  obtain ⟨b, hb, hl⟩ := h.linked ha
  rw [reportsOf_cons_self] at hl
  exact ⟨k, b, ha, hb, hl⟩

/-- The service reported goes on with the report taken, the others with the reports they had. -/
theorem linked_after_report (h : Consistent g (.report a state value :: inbox) controllers)
    {m : Name} {n' : Node} (hn' : (g.report a state value).1.nodes[m]? = some n') :
    ∃ (n : Node) (c : Controller) (state' : State) (value' : Option Value),
      g.nodes[m]? = some n ∧ controllers[n.inbox]? = some c ∧
      Linked m { n with state := state' } c (reportsOf m inbox) ∧ Shown n n' state' value' ∧
      (state' = .started → value'.isSome = true → value' = some c.plan.value) := by
  have hg := h.ordered.coherent
  obtain ⟨k, b, ha, hb, hlb⟩ := h.linked_report
  by_cases hm : m = a
  · subst hm
    have hr : state ≠ .removed := by
      rintro rfl
      simp [hg.nodes_report_removed] at hn'
    obtain ⟨k', hk', hs⟩ := hg.shown_report ha hr value
    rw [hn', Option.some.injEq] at hk'
    refine ⟨k, b, state, value, ha, hb, hlb.taken hr, hk' ▸ hs, ?_⟩
    rintro rfl _
    exact hlb.exposes value (by simp)
  · obtain ⟨n, hn⟩ := hg.exists_of_report hn'
    obtain ⟨k', hk', hs⟩ := hg.shown_report_of_ne ha hn (Ne.symm hm) state value
    rw [hn', Option.some.injEq] at hk'
    obtain ⟨c, hc, hl⟩ := h.linked hn
    rw [reportsOf_cons_of_ne (Ne.symm hm)] at hl
    exact ⟨n, c, n.state, none, hn, hc, hl, hk' ▸ hs, by simp⟩

theorem report (h : Consistent g (.report a state value :: inbox) controllers)
    (hended : EndsRemoved controllers)
    (hc' : ∀ j : Nat, controllers'[j]? = controllers[j]?.map
      (·.told (Graph.Trial.messagesTo j (g.report a state value).2))) :
    Consistent (g.report a state value).1 inbox controllers' := by
  have hg := h.ordered.coherent
  have hp := hg.passage_report (a := a) state value
  obtain ⟨k, b, ha, hb, hlb⟩ := h.linked_report
  have hreached : state.phase ≤ b.state.phase := hlb.upTo state (by simp [Node.outlook])
  refine h.of_passage hended hp (h.ordered.report ha hlb.lawful) ?_ hc' h.linked_after_report
    ?_ ?_
  · rintro m n c ⟨rfl, hleave⟩ hn hc
    rw [ha, Option.some.injEq] at hn
    rw [← hn, hb, Option.some.injEq] at hc
    exact .inl (hc ▸ Nat.le_trans hleave hreached)
  · intro i c hc hno
    by_cases hhost : ∃ m, g.Hosts m i
    · obtain ⟨m, n, hn, rfl⟩ := hhost
      have hnone : (g.report a state value).1.nodes[m]? = none := by
        by_contra hsome
        obtain ⟨n', hn'⟩ := Option.ne_none_iff_exists'.mp hsome
        exact hno m ⟨n', hn', (hp.carried hn hn').inbox⟩
      rcases hg.nodes_report_eq_none state value hnone with hm | ⟨rfl, rfl⟩
      · simp [hn] at hm
      · rw [ha, Option.some.injEq] at hn
        rw [← hn, hb, Option.some.injEq] at hc
        have hle := b.state.phase_le_five
        have hge : 5 ≤ b.state.phase := hreached
        exact hc ▸ State.phase_eq_five.mp (by omega)
    · exact h.gone hc fun m hm => hhost ⟨m, hm⟩
  · intro m hm
    by_cases hma : a = m
    · subst hma
      rcases hg.nodes_report_eq_none state value hm with hm | ⟨_, rfl⟩
      · simp [ha] at hm
      · exact hlb.eq_nil_of_removed
    · rw [← reportsOf_cons_of_ne hma state value]
      refine h.silent ?_
      rcases hg.nodes_report_eq_none state value hm with hm | ⟨hm, _⟩
      · exact hm
      · exact absurd hm.symm hma

end Report

/-- A service just installed has a controller that waits for what it was sent. -/
theorem linked_register (g : Graph) (plan : Plan) (ticket : Ticket) (i : Nat) :
    Linked plan.name ((g.enter plan.registration i).grant (plan.registration.node i))
      ((Controller.launch plan ticket).told
        (Graph.Trial.messagesTo i (g.register plan.registration i).2)) [] := by
  refine (linked_launch plan ticket i).carry (by simp [Controller.launch])
    (Graph.carried_register g plan.registration i) rfl
    (by simp [Graph.grant, Registration.node]) ?_
  intro hx
  replace hx : .dependentsStopped ∈ signalsTo i (g.register plan.registration i).2 := hx
  rw [Graph.signalsTo_register_self] at hx
  split at hx <;> simp at hx

/-- A service is installed and its controller launched. -/
theorem register (h : Consistent g inbox controllers) {plan : Plan} {ticket : Ticket}
    (hname : g.nodes[plan.name]? = none) (hended : EndsRemoved controllers)
    (hc' : ∀ j : Nat, controllers'[j]? =
      (controllers ++ [Controller.launch plan ticket])[j]?.map (·.told (Graph.Trial.messagesTo j
        (g.register plan.registration controllers.length).2))) :
    Consistent (g.register plan.registration controllers.length).1 inbox controllers' := by
  have hfresh : ∀ m, ¬g.Hosts m controllers.length := by
    rintro m ⟨n, hn, hi⟩
    obtain ⟨c, hc, _⟩ := h.linked hn
    simp [hi] at hc
  have hp := Graph.passage_register (r := plan.registration) hname hfresh
  have hself := Graph.nodes_register_self (g := g) plan.registration controllers.length
  have hlaunched : (controllers ++ [Controller.launch plan ticket])[controllers.length]? =
      some (Controller.launch plan ticket) := by simp
  have hbefore : ∀ {i : Nat} {c : Controller}, controllers[i]? = some c →
      (controllers ++ [Controller.launch plan ticket])[i]? = some c := by
    intro i c hc
    rw [List.getElem?_append_left (List.getElem?_eq_some_iff.mp hc).1, hc]
  have hold : ∀ {m : Name} {n' : Node}, plan.name ≠ m →
      (g.register plan.registration controllers.length).1.nodes[m]? = some n' →
      g.nodes[m]? = some n' := by
    intro m n' hm hn'
    rwa [Graph.nodes_register_of_ne (r := plan.registration) _ hm] at hn'
  have hkept : ∀ {m : Name} {n : Node}, g.nodes[m]? = some n →
      (g.register plan.registration controllers.length).1.nodes[m]? = some n := by
    intro m n hn
    have hm : plan.name ≠ m := by
      rintro rfl
      simp [hname] at hn
    rw [Graph.nodes_register_of_ne (r := plan.registration) _ hm, hn]
  refine ⟨h.ordered.register hname hfresh, ?_, ?_, ?_, ?_⟩
  · intro m n' hn'
    by_cases hm : plan.name = m
    · subst hm
      obtain rfl := Option.some.inj (hself.symm.trans hn')
      refine ⟨_, by rw [hc', Graph.grant_inbox]; exact congrArg _ hlaunched, ?_⟩
      rw [h.silent hname]
      exact linked_register g plan ticket controllers.length
    · have hn := hold hm hn'
      obtain ⟨c, hc, hl⟩ := h.linked hn
      refine ⟨_, by rw [hc', hbefore hc, Option.map_some], ?_⟩
      exact h.linked_passage hended hp (fun h => h.elim) hn hn' hc hl
        (.of_same rfl rfl) (by simp)
  · intro m n' c' hn' hc₁ hst
    by_cases hm : plan.name = m
    · subst hm
      obtain rfl := Option.some.inj (hself.symm.trans hn')
      rcases hst with hst | hst
      · simp [Graph.grant, Registration.node] at hst
      · exact absurd hst (h.ordered.coherent.not_awaited_register (r := plan.registration) hname _)
    · have hn := hold hm hn'
      obtain ⟨c, hc, _⟩ := h.linked hn
      rw [hc', hbefore hc, Option.map_some, Option.some.injEq] at hc₁
      exact hc₁ ▸ h.doomed_passage hended hp (fun h => h.elim) hn hn' hc hst
  · intro i c' hc₁ hno
    rw [hc'] at hc₁
    obtain ⟨c, hc, rfl⟩ := Option.map_eq_some_iff.mp hc₁
    rw [c.told_state]
    have hi : i ≠ controllers.length := by
      rintro rfl
      exact hno plan.name ⟨_, hself, rfl⟩
    have hlt : i < controllers.length := by
      have := (List.getElem?_eq_some_iff.mp hc).1
      simp only [List.length_append, List.length_singleton] at this
      omega
    rw [List.getElem?_append_left hlt] at hc
    refine h.gone hc ?_
    rintro m ⟨n, hn, hni⟩
    exact hno m ⟨n, hkept hn, hni⟩
  · intro m hm
    refine h.silent ?_
    by_contra hn
    obtain ⟨n, hn⟩ := Option.ne_none_iff_exists'.mp hn
    simp [hkept hn] at hm

/-! ## Turns of the controllers -/

theorem turn (h : Consistent g inbox controllers) {id : Nat} {c c' : Controller}
    {out : List Request} (hc : controllers[id]? = some c)
    (hset : ∀ j : Nat, controllers'[j]? = if j = id then some c' else controllers[j]?)
    (hlinked : ∀ {m n r}, Linked m n c r → Linked m n c' (r ++ reportsOf m out))
    (hdoomed : c.Doomed → c'.Doomed) (hgone : c.state = .removed → c'.state = .removed)
    (hout : ∀ m, c.state = .removed ∨ c.plan.name ≠ m → reportsOf m out = []) :
    Consistent g (inbox ++ out) controllers' := by
  have hother : ∀ {m : Name}, ¬g.Hosts m id → reportsOf m out = [] := by
    intro m hm
    by_cases hhost : ∃ m', g.Hosts m' id
    · obtain ⟨m', n', hn', hi'⟩ := hhost
      obtain ⟨b, hb, hl⟩ := h.linked hn'
      rw [hi', hc, Option.some.injEq] at hb
      refine hout m (.inr ?_)
      rw [hb, hl.name]
      rintro rfl
      exact hm ⟨n', hn', hi'⟩
    · exact hout m (.inl (h.gone hc fun m' hm' => hhost ⟨m', hm'⟩))
  refine ⟨h.ordered, ?_, ?_, ?_, ?_⟩
  · intro m n hn
    obtain ⟨b, hb, hl⟩ := h.linked hn
    rw [reportsOf_append]
    by_cases hi : n.inbox = id
    · rw [hi, hc, Option.some.injEq] at hb
      subst hb
      exact ⟨c', by rw [hset, if_pos hi], hlinked hl⟩
    · refine ⟨b, by rw [hset, if_neg hi, hb], ?_⟩
      have hno : ¬g.Hosts m id := by
        rintro ⟨k, hk, hki⟩
        rw [hn, Option.some.injEq] at hk
        exact hi (hk ▸ hki)
      rwa [hother hno, List.append_nil]
  · intro m n b hn hb hst
    rw [hset] at hb
    split at hb
    · next hi =>
        rw [← Option.some.inj hb]
        exact hdoomed (h.doomed hn (hi ▸ hc) hst)
    · exact h.doomed hn hb hst
  · intro i b hb hno
    rw [hset] at hb
    split at hb
    · next hi =>
        subst hi
        rw [← Option.some.inj hb]
        exact hgone (h.gone hc hno)
    · exact h.gone hb hno
  · intro m hm
    have hno : ¬g.Hosts m id := by
      rintro ⟨k, hk, _⟩
      simp [hm] at hk
    rw [reportsOf_append, h.silent hm, List.nil_append, hother hno]

end Consistent

theorem consistent_empty : Consistent .empty [] [] := by
  refine ⟨Graph.ordered_empty, ?_, ?_, ?_, ?_⟩
  · intro m n hn
    simp [Graph.empty] at hn
  · intro m n c hn
    simp [Graph.empty] at hn
  · intro i c hc
    simp at hc
  · exact fun _ => rfl

end ServiceHost
