import ServiceHost.Proofs.Graph.Signals

/-! # Stopping and removal

The node left by each operation that stops or removes a service, and the signals it sends. -/

namespace ServiceHost

namespace Node

/-- A service that starts to stop, with the dependents it has to wait for. -/
def stopped (n : Node) (dependents : List Name) : Node :=
  { n with
    stopping := true, value := none
    pendingDependents := if dependents.isEmpty then none else some (Names.ofList dependents) }

/-- A service that no longer waits for a dependent. -/
def strike (n : Node) (dependent : Name) : Node :=
  { n with
    pendingDependents := n.pendingDependents.bind fun p =>
      if (p.erase dependent).isEmpty then none else some (p.erase dependent) }

/-- The only dependent a service still waits for, if it waits for any, is this one. -/
def AwaitsOnly (n : Node) (dependent : Name) : Prop :=
  ∃ p, n.pendingDependents = some p ∧ p.erase dependent = ∅

/-- The service is stopping and awaits no one: it was told that its dependents are gone. -/
def Released (n : Node) : Prop := n.stopping = true ∧ n.pendingDependents = none

theorem mem_strike {n : Node} {dependent x : Name} {p : Names}
    (h : (n.strike dependent).pendingDependents = some p) :
    x ∈ p ↔ x ≠ dependent ∧ ∃ q, n.pendingDependents = some q ∧ x ∈ q := by
  simp only [strike, Option.bind_eq_some_iff] at h
  obtain ⟨q, hq, h⟩ := h
  split at h
  · simp at h
  · simp only [Option.some.injEq] at h
    subst h
    simp only [hq, Std.ExtTreeSet.mem_erase, ne_eq, Std.LawfulEqCmp.compare_eq_iff_eq,
      Option.some.injEq, exists_eq_left']
    tauto

theorem strike_eq_self {n : Node} {dependent : Name}
    (h : ∀ p, n.pendingDependents = some p → p ≠ ∅ ∧ dependent ∉ p) : n.strike dependent = n := by
  cases hp : n.pendingDependents with
  | none => simp [strike, hp]; simp [← hp]
  | some p =>
      obtain ⟨hne, hd⟩ := h p hp
      have he : p.erase dependent = p := by
        apply Std.ExtTreeSet.ext_mem
        intro x
        simp only [Std.ExtTreeSet.mem_erase, ne_eq, Std.LawfulEqCmp.compare_eq_iff_eq]
        constructor
        · exact And.right
        · intro hx
          exact ⟨fun hxd => hd (hxd ▸ hx), hx⟩
      have hf : p.isEmpty = false := by simpa [Std.ExtTreeSet.isEmpty_eq_false_iff] using hne
      simp only [strike, hp, Option.bind_some, he, hf]
      simp [← hp]

end Node

namespace Graph

@[simp] theorem setNode_dependents (g : Graph) (m : Name) (n : Node) :
    (g.setNode m n).dependents = g.dependents := rfl

theorem setNode_nodes (g : Graph) (m x : Name) (n : Node) :
    (g.setNode m n).nodes[x]? = if m = x then some n else g.nodes[x]? := by
  simp [setNode, Std.ExtTreeMap.getElem?_insert]

theorem nodup_dependentsOf (g : Graph) (a : Name) : (g.dependentsOf a).Nodup :=
  (Index.nodup_members _ _).filter _

/-! ## The dependents of a service -/

theorem Coherent.mem_dependentsOf {g : Graph} (hg : g.Coherent) {a m : Name} :
    m ∈ g.dependentsOf a ↔ ∃ n, g.nodes[m]? = some n ∧ a ∈ n.dependencies := by
  simp only [dependentsOf, List.mem_filter, hg.dependents]
  constructor
  · exact And.left
  · rintro ⟨n, hn, ha⟩
    refine ⟨⟨n, hn, ha⟩, ?_⟩
    simp [contains, Std.ExtTreeMap.contains_eq_isSome_getElem?, hn]

theorem Coherent.exists_mem_dependentsOf {g : Graph} (hg : g.Coherent) {a : Name} {i : Inbox} :
    (∃ m ∈ g.dependentsOf a, g.Hosts m i) ↔ g.Needs i a := by
  constructor
  · rintro ⟨m, hm, n, hn, hi⟩
    obtain ⟨n', hn', ha⟩ := hg.mem_dependentsOf.mp hm
    rw [hn, Option.some.injEq] at hn'
    exact ⟨m, n, hn, hi, hn' ▸ ha⟩
  · rintro ⟨m, n, hn, hi, ha⟩
    exact ⟨m, hg.mem_dependentsOf.mpr ⟨n, hn, ha⟩, n, hn, hi⟩

theorem Coherent.dependentsOf_eq_nil {g : Graph} (hg : g.Coherent) {a : Name} :
    g.dependentsOf a = [] ↔ ∀ i, ¬g.Needs i a := by
  rw [List.eq_nil_iff_forall_not_mem]
  constructor
  · intro h i hi
    obtain ⟨m, hm, _⟩ := hg.exists_mem_dependentsOf.mpr hi
    exact h m hm
  · intro h m hm
    obtain ⟨n, hn, ha⟩ := hg.mem_dependentsOf.mp hm
    exact h n.inbox ⟨m, n, hn, rfl, ha⟩

/-- Whoever awaits anyone awaits some installed service by name. -/
theorem Coherent.pending_eq_none {g : Graph} (hg : g.Coherent) {a : Name} {n : Node}
    (hn : g.nodes[a]? = some n) :
    n.pendingDependents = none ↔ ∀ x, ¬∃ p, n.pendingDependents = some p ∧ x ∈ p := by
  constructor
  · intro h x
    simp [h]
  · intro h
    cases hp : n.pendingDependents with
    | none => rfl
    | some p =>
        obtain ⟨x, hx⟩ := Names.exists_mem_of_ne_empty (hg.pending hn hp).2.1
        exact absurd ⟨p, hp, hx⟩ (h x)

/-! ## A service starts to stop -/

theorem beginStopping_of_stopping {g : Graph} {a : Name} {n : Node} (hn : g.nodes[a]? = some n)
    (hs : n.stopping = true) : g.beginStopping a = (g, []) := by
  simp [beginStopping, hn, hs]

theorem beginStopping_of_none {g : Graph} {a : Name} (hn : g.nodes[a]? = none) :
    g.beginStopping a = (g, []) := by
  simp [beginStopping, hn]

@[simp] theorem beginStopping_dependents (g : Graph) (a : Name) :
    (g.beginStopping a).1.dependents = g.dependents := by
  unfold beginStopping
  split
  · rfl
  · split
    · rfl
    · dsimp only
      split <;> rfl

theorem Coherent.pending_of_not_stopping {g : Graph} (hg : g.Coherent) {a : Name} {n : Node}
    (hn : g.nodes[a]? = some n) (hs : n.stopping = false) : n.pendingDependents = none := by
  cases hp : n.pendingDependents with
  | none => rfl
  | some p => simp [(hg.pending hn hp).1] at hs

theorem Coherent.beginStopping_nodes {g : Graph} (hg : g.Coherent) {a : Name} {n : Node}
    (hn : g.nodes[a]? = some n) (hs : n.stopping = false) (x : Name) :
    (g.beginStopping a).1.nodes[x]? =
      if a = x then some (n.stopped (g.dependentsOf a)) else g.nodes[x]? := by
  have hp := hg.pending_of_not_stopping hn hs
  simp only [beginStopping, hn, hs, Bool.false_eq_true, if_false]
  split
  · next he => simp [setNode_nodes, Node.stopped, he, hp]
  · next he => simp [setNode_nodes, Node.stopped, he]

/-- What is sent when a service starts to stop: the referrers of its group are told that it left,
which is no signal to anyone, and then its dependents, or it itself. -/
theorem beginStopping_sent (g : Graph) {a : Name} {n : Node} (hn : g.nodes[a]? = some n)
    (hs : n.stopping = false) : ∃ left : List Delivery, (∀ i, signalsTo i left = []) ∧
      (g.beginStopping a).2 = left ++
        if (g.dependentsOf a).isEmpty then [⟨n.inbox, .lifecycle .dependentsStopped⟩]
        else g.notifyAll (g.dependentsOf a) (.lifecycle .dependenciesUnavailable) := by
  simp only [beginStopping, hn, hs, Bool.false_eq_true, if_false]
  split <;> exact ⟨_, fun i => by split <;> simp, rfl⟩

open Classical in
/-- A service that starts to stop tells each installed dependent, or is told that there is none. -/
theorem Coherent.signalsTo_beginStopping {g : Graph} (hg : g.Coherent) {a : Name} {n : Node}
    (hn : g.nodes[a]? = some n) (hs : n.stopping = false) (i : Inbox) :
    signalsTo i (g.beginStopping a).2 =
      if g.Needs i a then [.dependenciesUnavailable]
      else if i = n.inbox ∧ ∀ j, ¬g.Needs j a then [.dependentsStopped] else [] := by
  obtain ⟨left, hleft, hsent⟩ := g.beginStopping_sent hn hs
  rw [hsent, signalsTo_append, hleft]
  split
  · next he =>
      have hno := hg.dependentsOf_eq_nil.mp (List.isEmpty_iff.mp he)
      by_cases hi : i = n.inbox
      · simp [hno, hi, Message.signal?, Event.signal]
      · simp [hno, hi, Ne.symm hi]
  · next he =>
      have hsome : ¬∀ j, ¬g.Needs j a := fun h => he (by simp [hg.dependentsOf_eq_nil.mpr h])
      rw [signalsTo_notifyAll hg.inboxes (nodup_dependentsOf g a)]
      simp [hg.exists_mem_dependentsOf, hsome, Event.signal]

/-! ## A dependent is struck -/

theorem strike_nodes (g : Graph) (a m x : Name) :
    (g.strike a m).1.nodes[x]? =
      if m = x then g.nodes[x]?.map (·.strike a) else g.nodes[x]? := by
  unfold strike
  cases hn : g.nodes[m]? with
  | none =>
      by_cases hx : m = x
      · subst hx; simp [hn]
      · simp [hx]
  | some n =>
      cases hp : n.pendingDependents with
      | none =>
          have he : n.strike a = n := Node.strike_eq_self (by simp [hp])
          by_cases hx : m = x
          · subst hx; simp [hn, hp, he]
          · simp [hx, hp]
      | some p =>
          by_cases hx : m = x
          · subst hx
            simp only [hp, Node.strike, hn, Option.map_some, Option.bind_some, if_true]
            generalize p.erase a = q
            split <;> simp [setNode_nodes]
          · simp only [hp, hx, if_false]
            generalize p.erase a = q
            split <;> simp [setNode_nodes, hx]

@[simp] theorem strike_dependents (g : Graph) (a m : Name) :
    (g.strike a m).1.dependents = g.dependents := by
  unfold strike
  cases g.nodes[m]? with
  | none => rfl
  | some n =>
      cases hp : n.pendingDependents with
      | none => simp [hp]
      | some p => simp only [hp]; split <;> rfl

open Classical in
theorem signalsTo_strike (g : Graph) (a m : Name) (i : Inbox) :
    signalsTo i (g.strike a m).2 =
      if ∃ n, g.nodes[m]? = some n ∧ n.inbox = i ∧ n.AwaitsOnly a
      then [.dependentsStopped] else [] := by
  unfold strike
  cases hn : g.nodes[m]? with
  | none => simp
  | some n =>
      cases hp : n.pendingDependents with
      | none => simp [hp, Node.AwaitsOnly]
      | some p =>
          have haw : n.AwaitsOnly a ↔ p.erase a = ∅ := by
            simp only [Node.AwaitsOnly, hp, Option.some.injEq, exists_eq_left']
          simp only [hp, Option.some.injEq, exists_eq_left', haw]
          generalize p.erase a = q
          split
          · next he =>
              rw [Std.ExtTreeSet.isEmpty_iff] at he
              by_cases hi : n.inbox = i <;> simp [he, hi, Message.signal?, Event.signal]
          · next he =>
              rw [Std.ExtTreeSet.isEmpty_iff] at he
              simp [he]

@[simp] theorem strikeAll_dependents (a : Name) (g : Graph) (names : List Name) :
    (strikeAll a g names).1.dependents = g.dependents := by
  induction names generalizing g with
  | nil => rfl
  | cons m names ih => simp [strikeAll, ih]

theorem strikeAll_nodes (a : Name) (g : Graph) {names : List Name} (hnd : names.Nodup) (x : Name) :
    (strikeAll a g names).1.nodes[x]? =
      if x ∈ names then g.nodes[x]?.map (·.strike a) else g.nodes[x]? := by
  induction names generalizing g with
  | nil => simp [strikeAll]
  | cons m names ih =>
      obtain ⟨hm, hnd⟩ := List.nodup_cons.mp hnd
      simp only [strikeAll, ih _ hnd, strike_nodes, List.mem_cons]
      by_cases hx : m = x
      · subst hx
        simp [hm]
      · simp [hx, Ne.symm hx]

theorem InboxesDistinct.strike {g : Graph} (hg : g.InboxesDistinct) (a m : Name) :
    (g.strike a m).1.InboxesDistinct := by
  apply hg.of_nodes
  intro x n' h
  rw [strike_nodes] at h
  split at h
  · obtain ⟨n, hn, rfl⟩ := Option.map_eq_some_iff.mp h
    exact ⟨n, hn, rfl⟩
  · exact ⟨n', h, rfl⟩

open Classical in
theorem signalsTo_strikeAll (a : Name) {g : Graph} (hg : g.InboxesDistinct) {names : List Name}
    (hnd : names.Nodup) (i : Inbox) :
    signalsTo i (strikeAll a g names).2 =
      if ∃ m ∈ names, ∃ n, g.nodes[m]? = some n ∧ n.inbox = i ∧ n.AwaitsOnly a
      then [.dependentsStopped] else [] := by
  induction names generalizing g with
  | nil => simp [strikeAll]
  | cons m names ih =>
      obtain ⟨hm, hnd⟩ := List.nodup_cons.mp hnd
      have hrest : ∀ x ∈ names, (g.strike a m).1.nodes[x]? = g.nodes[x]? := by
        intro x hx
        have hne : m ≠ x := fun he => hm (he ▸ hx)
        simp [strike_nodes, hne]
      have hiff : (∃ x ∈ names, ∃ n, (g.strike a m).1.nodes[x]? = some n ∧ n.inbox = i ∧
            n.AwaitsOnly a) ↔
          ∃ x ∈ names, ∃ n, g.nodes[x]? = some n ∧ n.inbox = i ∧ n.AwaitsOnly a := by
        constructor <;> rintro ⟨x, hx, h⟩ <;> exact ⟨x, hx, by simpa [hrest x hx] using h⟩
      simp only [strikeAll, signalsTo_append, signalsTo_strike, ih (hg.strike a m) hnd, hiff]
      by_cases h1 : ∃ n, g.nodes[m]? = some n ∧ n.inbox = i ∧ n.AwaitsOnly a
      · have h2 : ¬∃ x ∈ names, ∃ n, g.nodes[x]? = some n ∧ n.inbox = i ∧ n.AwaitsOnly a := by
          rintro ⟨x, hx, n, hn, hi, _⟩
          obtain ⟨k, hk, hki, _⟩ := h1
          exact hm (hg hk hn (hki.trans hi.symm) ▸ hx)
        simp [h1, h2]
      · simp [h1]

/-! ## A service is removed -/

/-- The last dependent a service awaits is installed and depends on it. -/
theorem Coherent.exists_of_awaitsOnly {g : Graph} (hg : g.Coherent) {m b : Name} {k : Node}
    (hk : g.nodes[m]? = some k) (h : k.AwaitsOnly b) :
    ∃ n : Node, g.nodes[b]? = some n ∧ m ∈ n.dependencies := by
  obtain ⟨p, hp, he⟩ := h
  obtain ⟨_, hne, hmem⟩ := hg.pending hk hp
  obtain ⟨x, hx⟩ := Names.exists_mem_of_ne_empty hne
  exact Names.eq_of_erase_eq_empty he hx ▸ hmem x hx

/-- A removed service awaits no one: whoever awaited it either goes on waiting for others or is
free to stop. -/
theorem Coherent.unregister_nodes {g : Graph} (hg : g.Coherent) {a : Name} {n : Node}
    (hn : g.nodes[a]? = some n) (x : Name) :
    (g.unregister a).1.nodes[x]? = if a = x then none else g.nodes[x]?.map (·.strike a) := by
  simp only [unregister, hn, strikeAll_nodes a _ (Names.nodup_toList _)]
  by_cases hx : a = x
  · subst hx
    simp
  · simp only [Std.ExtTreeMap.getElem?_erase, Std.LawfulEqCmp.compare_eq_iff_eq, hx, if_false,
      Std.ExtTreeSet.mem_toList]
    split
    · rfl
    · next hd =>
        cases hk : g.nodes[x]? with
        | none => rfl
        | some k =>
            have hself : k.strike a = k := by
              apply Node.strike_eq_self
              intro p hp
              obtain ⟨_, hne, hmem⟩ := hg.pending hk hp
              refine ⟨hne, fun ha => hd ?_⟩
              obtain ⟨n', hn', hxd⟩ := hmem a ha
              rw [hn, Option.some.injEq] at hn'
              exact hn' ▸ hxd
            simp [hself]

theorem unregister_of_none {g : Graph} {a : Name} (hn : g.nodes[a]? = none) :
    g.unregister a = (g, []) := by
  simp [unregister, hn]

open Classical in
theorem Coherent.signalsTo_unregister {g : Graph} (hg : g.Coherent) {a : Name} {n : Node}
    (hn : g.nodes[a]? = some n) (i : Inbox) :
    signalsTo i (g.unregister a).2 =
      if ∃ m, m ≠ a ∧ ∃ k, g.nodes[m]? = some k ∧ k.inbox = i ∧ k.AwaitsOnly a
      then [.dependentsStopped] else [] := by
  have herase : ∀ x, (g.nodes.erase a)[x]? = if a = x then none else g.nodes[x]? := by
    intro x
    simp [Std.ExtTreeMap.getElem?_erase]
  simp only [unregister, hn]
  rw [signalsTo_strikeAll a _ (Names.nodup_toList _)]
  · congr 1
    simp only [herase, Std.ExtTreeSet.mem_toList, eq_iff_iff]
    constructor
    · rintro ⟨m, hm, k, hk, hi, haw⟩
      by_cases ham : a = m
      · simp [ham] at hk
      · exact ⟨m, Ne.symm ham, k, by simpa [ham] using hk, hi, haw⟩
    · rintro ⟨m, hm, k, hk, hi, p, hp, he⟩
      refine ⟨m, ?_, k, by simpa [Ne.symm hm] using hk, hi, p, hp, he⟩
      -- the one it awaits depends on it
      obtain ⟨n', hn', hmd⟩ := hg.exists_of_awaitsOnly hk ⟨p, hp, he⟩
      rw [hn, Option.some.injEq] at hn'
      exact hn' ▸ hmd
  · apply hg.inboxes.of_nodes
    intro x k hk
    rw [herase] at hk
    split at hk
    · cases hk
    · exact ⟨k, hk, rfl⟩

theorem mem_dependents_unregister {g : Graph} {a : Name} {n : Node} (hn : g.nodes[a]? = some n)
    {d x : Name} : x ∈ (g.unregister a).1.dependents.members d ↔
      x ∈ g.dependents.members d ∧ ¬(d ∈ n.dependencies ∧ x = a) := by
  simp [unregister, hn]

/-! ## A service is asked to stop -/

theorem requestRemoval_of_none {g : Graph} {a : Name} (hn : g.nodes[a]? = none) :
    g.requestRemoval a = (g, []) := by
  simp [requestRemoval, hn]

theorem requestRemoval_fst (g : Graph) (a : Name) :
    (g.requestRemoval a).1 = (g.beginStopping a).1 := by
  cases hn : g.nodes[a]? with
  | none => simp [requestRemoval, beginStopping, hn]
  | some n => simp [requestRemoval, hn]

theorem signalsTo_requestRemoval {g : Graph} {a : Name} {n : Node} (hn : g.nodes[a]? = some n)
    (i : Inbox) : signalsTo i (g.requestRemoval a).2 =
      (if n.inbox = i then [.stopping] else []) ++ signalsTo i (g.beginStopping a).2 := by
  simp [requestRemoval, hn, Message.signal?, Event.signal]

end Graph

end ServiceHost
