import ServiceHost.Proofs.Graph.Reports

/-! # One step of a trial

For each incarnation, what a step makes of its node, and which signals about stopping it is sent. -/

namespace ServiceHost.Graph

/-- A step asks a service to stop, or tells that it is on its way out. -/
def TrialStep.Stops (s : TrialStep) (a : Name) : Prop :=
  match s with
  | .remove b => b = a
  | .report b reached _ => b = a ∧ reached.Leaving
  | _ => False

/-- A step takes a service out of the graph, if it is installed. -/
def TrialStep.Removes (s : TrialStep) (a : Name) : Prop :=
  match s with
  | .report b .removed _ => b = a
  | _ => False

theorem TrialStep.removes_report {a b : Name} {reached : State} {value : Option Value} :
    (TrialStep.report a reached value).Removes b ↔ a = b ∧ reached = .removed := by
  cases reached <;> simp [Removes]

theorem TrialStep.Removes.stops {s : TrialStep} {a : Name} (h : s.Removes a) : s.Stops a := by
  unfold Removes at h
  split at h
  · exact ⟨h, by decide⟩
  · exact h.elim

theorem TrialStep.Stops.eq {s : TrialStep} {a b : Name} (ha : s.Stops a) (hb : s.Stops b) :
    a = b := by
  cases s with
  | remove c => exact Eq.trans (Eq.symm ha) hb
  | report c reached value => exact ha.1.symm.trans hb.1
  | register | contains | state | disconnect => exact ha.elim

namespace Trial

/-- The trial after a step. -/
def next (t : Trial) (s : TrialStep) : Trial := (t.perform s).2.2

/-- What a step sends. -/
def sends (t : Trial) (s : TrialStep) : List Delivery := (t.perform s).2.1

section Registration

variable {t : Trial} {a : Name} {ds : Names} {group : Option Name} {refs : Names}

/-- A name that is taken is not registered again. -/
theorem next_register_of_taken (h : t.graph.contains a = true) :
    t.next (.register a ds group refs) = t := by
  simp [next, perform, h]

theorem sends_register_of_taken (h : t.graph.contains a = true) :
    t.sends (.register a ds group refs) = [] := by
  simp [sends, perform, h]

theorem next_register_of_free (h : ¬t.graph.contains a = true) :
    t.next (.register a ds group refs) =
      ⟨(t.graph.register ⟨a, ds, group, refs⟩ t.inboxes.length).1,
        t.inboxes ++ [t.nextInbox a]⟩ := by
  simp [next, perform, h]

theorem sends_register_of_free (h : ¬t.graph.contains a = true) :
    t.sends (.register a ds group refs) =
      (t.graph.register ⟨a, ds, group, refs⟩ t.inboxes.length).2 := by
  simp [sends, perform, h]

end Registration

/-- The graph is coherent and the inboxes in use were handed out. -/
structure Sound (t : Trial) : Prop where
  coherent : t.graph.Coherent
  known : ∀ {m : Name} {n : Node}, t.graph.nodes[m]? = some n → n.inbox < t.inboxes.length

/-- The node a step leaves for a service that it does not remove. -/
structure Survives (t : Trial) (s : TrialStep) (x : Name) (n n' : Node) : Prop where
  inbox : n'.inbox = n.inbox
  dependencies : n'.dependencies = n.dependencies
  stopping : n'.stopping = true ↔ n.stopping = true ∨ s.Stops x
  /-- A service that begins to stop awaits all its dependents. -/
  begun : n.stopping = false → s.Stops x → ∀ y, (∃ p, n'.pendingDependents = some p ∧ y ∈ p) ↔
    y ∈ t.graph.dependentsOf x
  /-- A service that began before only ceases to await the one that is removed. -/
  stopped : n.stopping = true → ∀ y, (∃ p, n'.pendingDependents = some p ∧ y ∈ p) ↔
    ¬s.Removes y ∧ ∃ p, n.pendingDependents = some p ∧ y ∈ p

/-- What a step makes of the nodes: the removed ones are gone, the others survive, and what is new
has an inbox of its own and is not stopping. -/
structure StepSpec (t : Trial) (s : TrialStep) : Prop where
  sound : (t.next s).Sound
  grows : t.inboxes.length ≤ (t.next s).inboxes.length
  survives : ∀ {x : Name} {n : Node}, t.graph.nodes[x]? = some n → ¬s.Removes x →
    ∃ n' : Node, (t.next s).graph.nodes[x]? = some n' ∧ t.Survives s x n n'
  gone : ∀ {x : Name}, s.Removes x → (t.next s).graph.nodes[x]? = none
  new : ∀ {x : Name} {n' : Node}, t.graph.nodes[x]? = none →
    (t.next s).graph.nodes[x]? = some n' →
    n'.inbox = t.inboxes.length ∧ n'.inbox < (t.next s).inboxes.length ∧ n'.stopping = false

variable {t : Trial} {s : TrialStep} {x : Name} {n n' : Node}

/-! ## Nodes -/

/-- A service the step does not stop keeps what it has, unless the one it awaits is removed. -/
theorem Survives.of_same (hg : t.graph.Coherent) (hn : t.graph.nodes[x]? = some n)
    (hno : ¬s.Stops x) (hr : ∀ y, s.Removes y → t.graph.nodes[y]? = none)
    (hi : n'.inbox = n.inbox) (hd : n'.dependencies = n.dependencies)
    (hs : n'.stopping = n.stopping) (hp : n'.pendingDependents = n.pendingDependents) :
    t.Survives s x n n' where
  inbox := hi
  dependencies := hd
  stopping := by simp [hs, hno]
  begun := fun _ h => absurd h hno
  stopped := by
    intro _ y
    rw [hp]
    constructor
    · rintro ⟨p, hp, hy⟩
      obtain ⟨k, hk, _⟩ := (hg.pending hn hp).2.2 y hy
      exact ⟨fun hy => by simp [hr y hy] at hk, p, hp, hy⟩
    · exact And.right

/-- A service the step stops, but does not remove. -/
theorem Survives.of_stop (hstop : s.Stops x) (hr : ∀ y, ¬s.Removes y) {k : Node}
    (hi : k.inbox = n.inbox) (hd : k.dependencies = n.dependencies)
    (hs : k.stopping = n.stopping) (hp : k.pendingDependents = n.pendingDependents) :
    t.Survives s x n (k.stop (t.graph.dependentsOf x)) where
  inbox := by simp [hi]
  dependencies := by simp [hd]
  stopping := by simp [hstop]
  begun := by
    intro hns _ y
    have hks : k.stopping = false := hs.trans hns
    simp only [Node.stop, hks, Bool.false_eq_true, if_false, Node.stopped]
    split
    · next he => simp [List.isEmpty_iff.mp he]
    · simp
  stopped := by
    intro hst y
    have hks : k.stopping = true := hs.trans hst
    simp [Node.stop, hks, hp, hr y]

theorem Survives.of_strike {a : Name} (hr : s.Removes a) (hx : a ≠ x) :
    t.Survives s x n (n.strike a) where
  inbox := rfl
  dependencies := rfl
  stopping := by
    have hno : ¬s.Stops x := fun h => hx (hr.stops.eq h)
    simp [Node.strike, hno]
  begun := fun _ h => absurd (hr.stops.eq h) hx
  stopped := by
    intro _ y
    have hy : s.Removes y ↔ y = a := ⟨fun h => h.stops.eq hr.stops, fun h => h ▸ hr⟩
    rw [hy]
    constructor
    · rintro ⟨p, hp, hyp⟩
      exact (Node.mem_strike hp).mp hyp
    · rintro ⟨hya, q, hq, hyq⟩
      have hmem : y ∈ q.erase a := by
        simp [Std.ExtTreeSet.mem_erase, Ne.symm hya, hyq]
      refine ⟨q.erase a, ?_, hmem⟩
      have hne : (q.erase a).isEmpty = false := by
        rw [Std.ExtTreeSet.isEmpty_eq_false_iff]
        intro he
        simp [he] at hmem
      simp only [Node.strike, hq, Option.bind_some, hne, Bool.false_eq_true, if_false]

/-- A step that changes nodes in place and hands out no inbox. -/
theorem StepSpec.of_nodes (ht : t.Sound) (f : Name → Node → Node)
    (hc : (t.next s).graph.Coherent) (hlen : (t.next s).inboxes.length = t.inboxes.length)
    (hr : ∀ y, s.Removes y → t.graph.nodes[y]? = none)
    (hnodes : ∀ x, (t.next s).graph.nodes[x]? = t.graph.nodes[x]?.map (f x))
    (hf : ∀ {x n}, t.graph.nodes[x]? = some n → t.Survives s x n (f x n)) : t.StepSpec s where
  sound := by
    refine ⟨hc, fun {m n'} hm => ?_⟩
    rw [hnodes] at hm
    obtain ⟨n, hn, rfl⟩ := Option.map_eq_some_iff.mp hm
    rw [(hf hn).inbox, hlen]
    exact ht.known hn
  grows := Nat.le_of_eq hlen.symm
  survives := fun {x n} hn _ => ⟨f x n, by simp [hnodes, hn], hf hn⟩
  gone := by
    intro x hx
    simp [hnodes, hr x hx]
  new := by
    intro x n' hx hn'
    simp [hnodes, hx] at hn'

/-- A step that leaves the nodes as they are. -/
theorem StepSpec.of_same (ht : t.Sound) (hgraph : (t.next s).graph = t.graph)
    (hlen : (t.next s).inboxes.length = t.inboxes.length)
    (hno : ∀ y, s.Stops y → t.graph.nodes[y]? = none) : t.StepSpec s := by
  have hr : ∀ y, s.Removes y → t.graph.nodes[y]? = none := fun y hy => hno y hy.stops
  apply StepSpec.of_nodes ht (fun _ n => n) (hgraph ▸ ht.coherent) hlen hr
  · simp [hgraph]
  · intro x n hn
    have hx : ¬s.Stops x := fun h => by simp [hno x h] at hn
    exact .of_same ht.coherent hn hx hr rfl rfl rfl rfl

theorem Sound.fresh_inbox (ht : t.Sound) (m : Name) : ¬t.graph.Hosts m t.inboxes.length := by
  rintro ⟨n, hn, hi⟩
  exact Nat.lt_irrefl _ (hi ▸ ht.known hn)

theorem stepSpec_register (ht : t.Sound) (a : Name) (ds : Names) (group : Option Name)
    (refs : Names) : t.StepSpec (.register a ds group refs) := by
  by_cases hc : t.graph.contains a = true
  · apply StepSpec.of_same ht
    · rw [next_register_of_taken hc]
    · rw [next_register_of_taken hc]
    · exact fun y h => h.elim
  · have ha : t.graph.nodes[a]? = none := not_contains_iff.mp hc
    have hnext : t.next (.register a ds group refs) =
        ⟨(t.graph.register ⟨a, ds, group, refs⟩ t.inboxes.length).1,
          t.inboxes ++ [t.nextInbox a]⟩ := next_register_of_free hc
    have hlen : (t.next (.register a ds group refs)).inboxes.length = t.inboxes.length + 1 := by
      rw [hnext]; simp
    have hcoh := ht.coherent.register (r := ⟨a, ds, group, refs⟩) ha ht.fresh_inbox
    have hkeep : ∀ (x : Name) (n : Node), t.graph.nodes[x]? = some n → a ≠ x := by
      rintro x n hx rfl
      simp [ha] at hx
    have hnodes : ∀ x, (t.next (.register a ds group refs)).graph.nodes[x]? =
        if a = x then some ((t.graph.enter ⟨a, ds, group, refs⟩ t.inboxes.length).grant
          (Registration.node ⟨a, ds, group, refs⟩ t.inboxes.length)) else t.graph.nodes[x]? := by
      intro x
      rw [hnext, register_fst, resolve_nodes, enter_nodes]
      by_cases hx : a = x <;> simp [hx]
    refine ⟨⟨?_, ?_⟩, by omega, ?_, fun h => h.elim, ?_⟩
    · rw [hnext]
      exact hcoh
    · intro m k hk
      rw [hnodes] at hk
      split at hk
      · cases hk
        simp [grant, Registration.node, hlen]
      · exact Nat.lt_of_lt_of_le (ht.known hk) (by simp [hlen])
    · intro x n hn _
      refine ⟨n, by rw [hnodes, if_neg (hkeep x n hn), hn], ?_⟩
      exact .of_same ht.coherent hn id (fun _ h => h.elim) rfl rfl rfl rfl
    · intro x n' hx hn'
      rw [hnodes] at hn'
      split at hn'
      · cases hn'
        simp [grant, Registration.node, hlen]
      · simp [hx] at hn'

theorem stepSpec_remove (ht : t.Sound) (a : Name) : t.StepSpec (.remove a) := by
  have hnext : t.next (.remove a) = { t with graph := (t.graph.requestRemoval a).1 } := rfl
  apply StepSpec.of_nodes ht fun x k => if a = x then k.stop (t.graph.dependentsOf a) else k
  · exact ht.coherent.requestRemoval a
  · rfl
  · exact fun y h => h.elim
  · intro x
    rw [hnext, requestRemoval_fst]
    exact (ht.coherent.beginStopping_updates a).nodes x
  · intro x n hn
    split
    · next hx =>
        subst hx
        exact .of_stop (s := .remove a) (x := a) rfl (fun _ => id) rfl rfl rfl rfl
    · next hx => exact .of_same ht.coherent hn hx (fun _ h => h.elim) rfl rfl rfl rfl

theorem stepSpec_report (ht : t.Sound) (a : Name) (reached : State) (value : Option Value) :
    t.StepSpec (.report a reached value) := by
  have hc : (t.next (.report a reached value)).graph.Coherent := ht.coherent.report a reached value
  cases hn : t.graph.nodes[a]? with
  | none =>
      apply StepSpec.of_same ht
      · show (t.graph.report a reached value).1 = _
        rw [report_of_none hn]
      · rfl
      · rintro y ⟨rfl, _⟩
        exact hn
  | some n =>
      by_cases hleave : reached.Leaving
      · by_cases hremoved : reached = .removed
        · subst hremoved
          have hnodes := ht.coherent.report_removed_nodes hn value
          refine ⟨⟨hc, ?_⟩, Nat.le_refl _, ?_, ?_, ?_⟩
          · intro m k hk
            replace hk := (hnodes m).symm.trans hk
            split at hk
            · cases hk
            · obtain ⟨k', hk', rfl⟩ := Option.map_eq_some_iff.mp hk
              have hi : k'.inbox < t.inboxes.length := ht.known hk'
              exact hi
          · intro x k hk hx
            have hax : a ≠ x := fun h => hx h
            refine ⟨k.strike a, ?_, .of_strike (a := a) rfl hax⟩
            exact (hnodes x).trans (by simp [hax, hk])
          · rintro x rfl
            exact (hnodes a).trans (by simp)
          · intro x k hx hk
            have := (hnodes x).symm.trans hk
            simp [hx] at this
        · have hr : ∀ y, ¬(TrialStep.report a reached value).Removes y := by
            intro y h
            exact hremoved (TrialStep.removes_report.mp h).2
          have hu := ht.coherent.report_stop_updates hn hleave hremoved value
          apply StepSpec.of_nodes ht _ hc rfl (fun y h => absurd h (hr y)) hu.nodes
          intro x k hk
          split
          · next hx =>
              subst hx
              cases hn.symm.trans hk
              have hstop : (TrialStep.report a reached value).Stops a := ⟨rfl, hleave⟩
              exact .of_stop hstop hr rfl rfl rfl rfl
          · next hx =>
              exact .of_same ht.coherent hk (fun h => hx h.1) (fun y h => absurd h (hr y))
                rfl rfl rfl rfl
      · have hno : ∀ y, ¬(TrialStep.report a reached value).Stops y := fun y h => hleave h.2
        have hr : ∀ y, (TrialStep.report a reached value).Removes y → t.graph.nodes[y]? = none :=
          fun y h => absurd h.stops (hno y)
        obtain ⟨f, hu, hf⟩ := report_stay_updates hn hleave value
        apply StepSpec.of_nodes ht f hc rfl hr hu.nodes
        intro x k hk
        exact .of_same ht.coherent hk (hno x) hr (hu.inbox hk) (hu.dependencies hk)
          (hf hk).1 (hf hk).2

theorem stepSpec (ht : t.Sound) (s : TrialStep) : t.StepSpec s := by
  cases s with
  | register a ds group refs => exact stepSpec_register ht a ds group refs
  | report a reached value => exact stepSpec_report ht a reached value
  | remove a => exact stepSpec_remove ht a
  | contains a | state a => exact .of_same ht rfl rfl fun _ => False.elim
  | disconnect a => exact .of_same ht rfl (by simp [next, perform]) fun _ => False.elim

/-! ## Signals -/

open Classical in
/-- The signals about stopping that an incarnation is sent in a step: a service it needs begins to
stop, or it begins to stop with no dependents itself, or the last dependent it awaits is removed. -/
structure SignalSpec (t : Trial) (s : TrialStep) (i : Inbox) : Prop where
  unavailable : (signalsTo i (t.sends s)).count .dependenciesUnavailable =
    if ∃ a, s.Stops a ∧ t.graph.Awake a ∧ t.graph.Needs i a then 1 else 0
  stopped : (signalsTo i (t.sends s)).count .dependentsStopped =
    if (∃ a, s.Stops a ∧ t.graph.Awake a ∧ t.graph.Hosts a i ∧ ∀ j, ¬t.graph.Needs j a) ∨
      ∃ b m, s.Removes b ∧ m ≠ b ∧ ∃ k, t.graph.nodes[m]? = some k ∧ k.inbox = i ∧ k.AwaitsOnly b
    then 1 else 0

/-- A step that stops no installed service sends nothing about stopping. -/
theorem SignalSpec.of_quiet (ht : t.Sound) {i : Inbox}
    (hno : ∀ a, s.Stops a → t.graph.nodes[a]? = none)
    (h : ∀ x ∈ signalsTo i (t.sends s), x = .dependenciesAvailable) : t.SignalSpec s i := by
  constructor
  · have hnone : ¬∃ a, s.Stops a ∧ t.graph.Awake a ∧ t.graph.Needs i a := by
      rintro ⟨a, ha, ⟨n, hn, _⟩, _⟩
      simp [hno a ha] at hn
    rw [if_neg hnone, List.count_eq_zero]
    exact fun hx => nomatch h _ hx
  · have hnone : ¬((∃ a, s.Stops a ∧ t.graph.Awake a ∧ t.graph.Hosts a i ∧
          ∀ j, ¬t.graph.Needs j a) ∨
        ∃ b m, s.Removes b ∧ m ≠ b ∧ ∃ k, t.graph.nodes[m]? = some k ∧ k.inbox = i ∧
          k.AwaitsOnly b) := by
      rintro (⟨a, ha, ⟨n, hn, _⟩, _⟩ | ⟨b, m, hb, _, k, hk, _, haw⟩)
      · simp [hno a ha] at hn
      · obtain ⟨n, hn, _⟩ := ht.coherent.exists_of_awaitsOnly hk haw
        simp [hno b hb.stops] at hn
    rw [if_neg hnone, List.count_eq_zero]
    exact fun hx => nomatch h _ hx

open Classical in
/-- A step that stops a service, and takes it out of the graph at most afterwards. -/
theorem SignalSpec.of_stop {i : Inbox} {a : Name} (hg : t.graph.InboxesDistinct)
    (hstop : s.Stops a) {l : List Signal} (hunavailable : .dependenciesUnavailable ∉ l)
    (hstopped : .dependentsStopped ∉ l)
    (h : signalsTo i (t.sends s) = l ++ (t.graph.stopSignals a i ++ if ∃ b m, s.Removes b ∧ m ≠ b ∧ ∃ k, t.graph.nodes[m]? = some k ∧
        k.inbox = i ∧ k.AwaitsOnly b then [.dependentsStopped] else [])) : t.SignalSpec s i := by
  have hiff : ∀ P : Name → Prop, (∃ b, s.Stops b ∧ P b) ↔ P a := by
    intro P
    constructor
    · rintro ⟨b, hb, h⟩
      exact hb.eq hstop ▸ h
    · exact fun h => ⟨a, hstop, h⟩
  -- whoever begins to stop is not struck in the same step
  have hdisjoint : t.graph.Hosts a i → ¬∃ b m, s.Removes b ∧ m ≠ b ∧
      ∃ k, t.graph.nodes[m]? = some k ∧ k.inbox = i ∧ k.AwaitsOnly b := by
    rintro ⟨n, hn, hi⟩ ⟨b, m, hb, hm, k, hk, hki, _⟩
    exact hm ((hg hk hn (hki.trans hi.symm)).trans (hstop.eq hb.stops))
  have hb := List.count_eq_zero.mpr hunavailable
  have hb' := List.count_eq_zero.mpr hstopped
  constructor
  · rw [h, List.count_append, List.count_append, hb, hiff, stopSignals]
    by_cases hawake : t.graph.Awake a <;> by_cases hneeds : t.graph.Needs i a <;>
      simp only [hawake, hneeds, if_true, if_false, and_self, and_false, false_and] <;>
      split <;> (try split) <;> simp
  · rw [h, List.count_append, List.count_append, hb', hiff, stopSignals]
    by_cases hawake : t.graph.Awake a
    · by_cases hneeds : t.graph.Needs i a
      · have hsome : ¬∀ j, ¬t.graph.Needs j a := fun h => h i hneeds
        simp only [hawake, hneeds, hsome, if_true, and_false, false_or]
        split <;> simp
      · by_cases hhosts : t.graph.Hosts a i ∧ ∀ j, ¬t.graph.Needs j a
        · have hno := hdisjoint hhosts.1
          simp only [hawake, hneeds, hhosts, hno, if_true, if_false]
          simp
        · simp only [hawake, hneeds, hhosts, if_true, if_false, true_and, false_or]
          split <;> simp
    · simp only [hawake, if_false, false_and, false_or]
      split <;> simp

open Classical in
theorem signalSpec (ht : t.Sound) (s : TrialStep) (i : Inbox) : t.SignalSpec s i := by
  have hg := ht.coherent
  cases s with
  | register a ds group refs =>
      apply SignalSpec.of_quiet ht fun _ => False.elim
      intro x hx
      by_cases hc : t.graph.contains a = true
      · rw [sends_register_of_taken hc] at hx
        cases hx
      · rw [sends_register_of_free hc, signalsTo_register_eq, signalsTo_resolve] at hx
        split at hx <;> simp_all
  | remove a =>
      have hr : ∀ b, ¬(TrialStep.remove a).Removes b := fun _ => id
      cases hn : t.graph.nodes[a]? with
      | none =>
          apply SignalSpec.of_quiet ht
          · rintro b rfl
            exact hn
          · have hsends : t.sends (.remove a) = [] :=
              congrArg Prod.snd (requestRemoval_of_none hn)
            simp [hsends]
      | some n =>
          have hstop : (TrialStep.remove a).Stops a := rfl
          apply SignalSpec.of_stop (l := if n.inbox = i then [.stopping] else []) hg.inboxes hstop
          · split <;> simp
          · split <;> simp
          · have hnone : ¬∃ b m, (TrialStep.remove a).Removes b ∧ m ≠ b ∧
                ∃ k, t.graph.nodes[m]? = some k ∧ k.inbox = i ∧ k.AwaitsOnly b := by
              rintro ⟨b, _, hb, _⟩
              exact hr b hb
            rw [if_neg hnone, List.append_nil, ← hg.signalsTo_beginStopping_eq]
            exact signalsTo_requestRemoval hn i
  | report a reached value =>
      cases hn : t.graph.nodes[a]? with
      | none =>
          apply SignalSpec.of_quiet ht
          · rintro b ⟨rfl, _⟩
            exact hn
          · have hsends : t.sends (.report a reached value) = [] :=
              congrArg Prod.snd (report_of_none hn reached value)
            simp [hsends]
      | some n =>
          by_cases hleave : reached.Leaving
          · have hstop : (TrialStep.report a reached value).Stops a := ⟨rfl, hleave⟩
            apply SignalSpec.of_stop (l := []) hg.inboxes hstop (by simp) (by simp)
            rw [List.nil_append]
            by_cases hremoved : reached = .removed
            · subst hremoved
              refine (hg.signalsTo_report_removed hn value i).trans (congrArg _ ?_)
              have hiff : (∃ m, m ≠ a ∧ ∃ k, t.graph.nodes[m]? = some k ∧ k.inbox = i ∧
                    k.AwaitsOnly a) ↔
                  ∃ b m, (TrialStep.report a .removed value).Removes b ∧ m ≠ b ∧
                    ∃ k, t.graph.nodes[m]? = some k ∧ k.inbox = i ∧ k.AwaitsOnly b := by
                constructor
                · rintro ⟨m, h⟩
                  exact ⟨a, m, rfl, h⟩
                · rintro ⟨b, m, rfl, h⟩
                  exact ⟨m, h⟩
              exact if_congr hiff rfl rfl
            · have hnone : ¬∃ b m, (TrialStep.report a reached value).Removes b ∧ m ≠ b ∧
                  ∃ k, t.graph.nodes[m]? = some k ∧ k.inbox = i ∧ k.AwaitsOnly b := by
                rintro ⟨b, _, hb, _⟩
                exact hremoved (TrialStep.removes_report.mp hb).2
              rw [if_neg hnone, List.append_nil, ← hg.signalsTo_note_beginStopping hn]
              exact congrArg (fun o => signalsTo i o.2) (report_stop hn hleave hremoved value)
          · exact .of_quiet ht (fun b hb => absurd hb.2 hleave)
              (hg.mem_signalsTo_report hleave value)
  | contains a | state a | disconnect a =>
      exact .of_quiet ht (fun _ => False.elim) (by simp [sends, perform])

/-- A service that was released is not told again. -/
theorem count_of_released (ht : t.Sound) {a : Name} (hn : t.graph.nodes[a]? = some n)
    (h : n.Released) (s : TrialStep) :
    (signalsTo n.inbox (t.sends s)).count .dependentsStopped = 0 := by
  have hg := ht.coherent
  rw [(signalSpec ht s n.inbox).stopped, if_neg]
  rintro (⟨b, _, ⟨k, hk, hks⟩, hh, _⟩ | ⟨b, m, _, _, k, hk, hki, p, hp, _⟩)
  · rw [hg.inboxes.eq_of_hosts hn hh, hn, Option.some.injEq] at hk
    simp [← hk, h.1] at hks
  · rw [hg.inboxes.eq_of_hosts hn ⟨k, hk, hki⟩, hn, Option.some.injEq] at hk
    simp [← hk, h.2] at hp

/-- A service that had not begun to stop is told that its dependents are gone in a step if the step
stops it and nobody depends on it. -/
theorem stopped_iff_of_awake (ht : t.Sound) {a : Name} (hn : t.graph.nodes[a]? = some n)
    (hn' : (t.next s).graph.nodes[a]? = some n') (hs : t.Survives s a n n')
    (hst : n.stopping = false) :
    ((∃ b, s.Stops b ∧ t.graph.Awake b ∧ t.graph.Hosts b n.inbox ∧ ∀ j, ¬t.graph.Needs j b) ∨
      ∃ b m, s.Removes b ∧ m ≠ b ∧ ∃ k, t.graph.nodes[m]? = some k ∧ k.inbox = n.inbox ∧
        k.AwaitsOnly b) ↔ n'.Released := by
  have hg := ht.coherent
  have hempty := (stepSpec ht s).sound.coherent.pending_eq_none hn'
  have hawaits : ¬∃ b m, s.Removes b ∧ m ≠ b ∧ ∃ k, t.graph.nodes[m]? = some k ∧
      k.inbox = n.inbox ∧ k.AwaitsOnly b := by
    rintro ⟨b, m, _, _, k, hk, hki, p, hp, _⟩
    have hsk := (hg.pending hk hp).1
    rw [hg.inboxes.eq_of_hosts hn ⟨k, hk, hki⟩, hn, Option.some.injEq] at hk
    simp [← hk, hst] at hsk
  rw [or_iff_left hawaits, Node.Released, hs.stopping, hst, hempty]
  simp only [Bool.false_eq_true, false_or]
  constructor
  · rintro ⟨b, hb, _, hh, hno⟩
    obtain rfl := hg.inboxes.eq_of_hosts hn hh
    refine ⟨hb, fun x hx => ?_⟩
    rw [hs.begun hst hb, hg.dependentsOf_eq_nil.mpr hno] at hx
    simp at hx
  · rintro ⟨hb, hno⟩
    refine ⟨a, hb, ⟨n, hn, hst⟩, ⟨n, hn, rfl⟩, hg.dependentsOf_eq_nil.mp ?_⟩
    rw [List.eq_nil_iff_forall_not_mem]
    exact fun x hx => hno x ((hs.begun hst hb x).mpr hx)

/-- One that is stopping is told so in a step if the step removes the last it awaits. -/
theorem stopped_iff_of_stopping (ht : t.Sound) {a : Name} (hn : t.graph.nodes[a]? = some n)
    (hr : ¬s.Removes a) (hst : n.stopping = true) :
    ((∃ b, s.Stops b ∧ t.graph.Awake b ∧ t.graph.Hosts b n.inbox ∧ ∀ j, ¬t.graph.Needs j b) ∨
      ∃ b m, s.Removes b ∧ m ≠ b ∧ ∃ k, t.graph.nodes[m]? = some k ∧ k.inbox = n.inbox ∧
        k.AwaitsOnly b) ↔ ∃ b, s.Removes b ∧ n.AwaitsOnly b := by
  have hg := ht.coherent
  have hawake : ¬∃ b, s.Stops b ∧ t.graph.Awake b ∧ t.graph.Hosts b n.inbox ∧
      ∀ j, ¬t.graph.Needs j b := by
    rintro ⟨b, _, ⟨k, hk, hks⟩, hh, _⟩
    rw [hg.inboxes.eq_of_hosts hn hh, hn, Option.some.injEq] at hk
    simp [← hk, hst] at hks
  rw [or_iff_right hawake]
  constructor
  · rintro ⟨b, m, hb, _, k, hk, hki, haw⟩
    rw [hg.inboxes.eq_of_hosts hn ⟨k, hk, hki⟩, hn, Option.some.injEq] at hk
    exact ⟨b, hb, hk ▸ haw⟩
  · rintro ⟨b, hb, haw⟩
    exact ⟨b, a, hb, fun h => hr (h ▸ hb), n, hn, rfl, haw⟩

/-- A step removes one service at most: the last one awaited if it removes all that are. -/
theorem removes_all_iff {p : Names} (hp : n.pendingDependents = some p) (hne : p ≠ ∅) :
    (∃ b, s.Removes b ∧ n.AwaitsOnly b) ↔ ∀ x ∈ p, s.Removes x := by
  constructor
  · rintro ⟨b, hb, q, hq, he⟩ x hx
    cases hp.symm.trans hq
    exact Names.eq_of_erase_eq_empty he hx ▸ hb
  · intro hall
    obtain ⟨b, hb⟩ := Names.exists_mem_of_ne_empty hne
    refine ⟨b, hall b hb, p, hp, Std.ExtTreeSet.ext_mem fun y => ?_⟩
    have hyb : y ∈ p → b = y := fun hy => (hall b hb).stops.eq (hall y hy).stops
    simp only [Std.ExtTreeSet.mem_erase, ne_eq, Std.LawfulEqCmp.compare_eq_iff_eq,
      Std.ExtTreeSet.not_mem_empty, iff_false, not_and]
    exact fun hne hy => hne (hyb hy)

open Classical in
/-- A service that survives a step is told that its dependents are gone in the step in which it
comes to await no one. -/
theorem released_step (ht : t.Sound) {a : Name} (hn : t.graph.nodes[a]? = some n)
    (hn' : (t.next s).graph.nodes[a]? = some n') (hr : ¬s.Removes a) (hs : t.Survives s a n n') :
    (signalsTo n.inbox (t.sends s)).count .dependentsStopped + (if n.Released then 1 else 0) =
      if n'.Released then 1 else 0 := by
  rw [(signalSpec ht s n.inbox).stopped]
  cases hst : n.stopping with
  | false =>
      have hnr : ¬n.Released := by simp [Node.Released, hst]
      simp only [stopped_iff_of_awake ht hn hn' hs hst, hnr, if_false, Nat.add_zero]
  | true =>
      have hempty := (stepSpec ht s).sound.coherent.pending_eq_none hn'
      have hst' : n'.stopping = true := hs.stopping.mpr (.inl hst)
      simp only [stopped_iff_of_stopping ht hn hr hst]
      cases hp : n.pendingDependents with
      | none => simp [Node.Released, Node.AwaitsOnly, hst, hst', hempty, hs.stopped hst, hp]
      | some p =>
          obtain ⟨_, hne, _⟩ := ht.coherent.pending hn hp
          have hnr : ¬n.Released := by simp [Node.Released, hp]
          have hrel' : n'.Released ↔ ∀ x ∈ p, s.Removes x := by
            simp only [Node.Released, hst', hempty, hs.stopped hst, hp, true_and,
              Option.some.injEq, exists_eq_left', not_and]
            exact forall_congr' fun x => ⟨not_imp_not.mp, fun h hx hm => hx (h hm)⟩
          simp only [removes_all_iff hp hne, hrel', hnr, if_false, Nat.add_zero]

end Trial

end ServiceHost.Graph
