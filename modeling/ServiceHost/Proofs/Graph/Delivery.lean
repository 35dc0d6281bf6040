import ServiceHost.Proofs.Graph.Signals

/-! # Delivery of dependencies

A service is given its dependencies once: when it is neither resolved nor stopping and each of
them is exposed. -/

namespace ServiceHost.Graph

/-- Whether a node is to be given its dependencies now. -/
def canResolve (g : Graph) (n : Node) : Bool :=
  !n.resolved && !n.stopping && (g.available? n.dependencies).isSome

/-- A node that was given its dependencies if it was to be. -/
def grant (g : Graph) (n : Node) : Node := { n with resolved := n.resolved || g.canResolve n }

theorem grant_of_not {g : Graph} {n : Node} (h : g.canResolve n = false) : g.grant n = n := by
  simp [grant, h]

theorem resolve_eq (g : Graph) (m : Name) (n : Node) (hn : g.nodes[m]? = some n) :
    g.resolve m =
      if g.canResolve n then
        (g.setNode m (g.grant n), [⟨n.inbox, .lifecycle (.dependenciesAvailable
          ((g.available? n.dependencies).getD []))⟩])
      else (g, []) := by
  unfold resolve canResolve
  rw [hn]
  cases hr : n.resolved <;> cases hs : n.stopping <;>
    cases ha : g.available? n.dependencies <;> simp [grant, canResolve, hr, hs, ha]

@[simp] theorem resolve_dependents (g : Graph) (m : Name) :
    (g.resolve m).1.dependents = g.dependents := by
  cases hn : g.nodes[m]? with
  | none => simp [resolve, hn]
  | some n => rw [resolve_eq g m n hn]; split <;> rfl

theorem resolve_nodes (g : Graph) (m x : Name) :
    (g.resolve m).1.nodes[x]? = if m = x then g.nodes[x]?.map g.grant else g.nodes[x]? := by
  cases hn : g.nodes[m]? with
  | none =>
      simp only [resolve, hn]
      split
      · next h => simp [← h, hn]
      · rfl
  | some n =>
      rw [resolve_eq g m n hn]
      by_cases hc : g.canResolve n = true
      · by_cases hx : m = x
        · subst hx
          simp [hc, setNode, hn]
        · simp [hc, setNode, hx, Std.ExtTreeMap.getElem?_insert]
      · have hg := grant_of_not (by simpa using hc)
        by_cases hx : m = x
        · subst hx
          simp [hc, hn, hg]
        · simp [hc, hx]

theorem exposed?_resolve (g : Graph) (m d : Name) : (g.resolve m).1.exposed? d = g.exposed? d := by
  rw [exposed?_eq, exposed?_eq, resolve_nodes]
  split
  · cases g.nodes[d]? <;> rfl
  · rfl

open Classical in
theorem signalsTo_resolve (g : Graph) (m : Name) (i : Inbox) :
    signalsTo i (g.resolve m).2 =
      if ∃ n, g.nodes[m]? = some n ∧ n.inbox = i ∧ g.canResolve n = true
      then [.dependenciesAvailable] else [] := by
  cases hn : g.nodes[m]? with
  | none => simp [resolve, hn]
  | some n =>
      rw [resolve_eq g m n hn]
      by_cases hc : g.canResolve n = true <;> by_cases hi : n.inbox = i <;>
        simp [hc, hi, Message.signal?, Event.signal]

theorem InboxesDistinct.resolve {g : Graph} (hg : g.InboxesDistinct) (m : Name) :
    (g.resolve m).1.InboxesDistinct := by
  apply hg.of_nodes
  intro x n' h
  rw [resolve_nodes] at h
  split at h
  · obtain ⟨n, hn, rfl⟩ := Option.map_eq_some_iff.mp h
    exact ⟨n, hn, rfl⟩
  · exact ⟨n', h, rfl⟩

@[simp] theorem resolveAll_dependents (g : Graph) (names : List Name) :
    (g.resolveAll names).1.dependents = g.dependents := by
  induction names generalizing g with
  | nil => rfl
  | cons m names ih => simp [resolveAll, ih]

theorem exposed?_resolveAll (g : Graph) (names : List Name) (d : Name) :
    (g.resolveAll names).1.exposed? d = g.exposed? d := by
  induction names generalizing g with
  | nil => rfl
  | cons m names ih => simp [resolveAll, ih, exposed?_resolve]

theorem canResolve_congr {g g' : Graph} (h : ∀ d, g'.exposed? d = g.exposed? d) :
    g'.canResolve = g.canResolve := by
  funext n
  simp [canResolve, available?_congr h]

theorem grant_congr {g g' : Graph} (h : ∀ d, g'.exposed? d = g.exposed? d) :
    g'.grant = g.grant := by
  funext n
  simp [grant, canResolve_congr h]

theorem grant_grant (g : Graph) (n : Node) : g.grant (g.grant n) = g.grant n := by
  cases hr : n.resolved <;> cases hc : g.canResolve n <;> simp_all [grant, canResolve]

theorem resolveAll_nodes (g : Graph) (names : List Name) (x : Name) :
    (g.resolveAll names).1.nodes[x]? =
      if x ∈ names then g.nodes[x]?.map g.grant else g.nodes[x]? := by
  induction names generalizing g with
  | nil => simp [resolveAll]
  | cons m names ih =>
      have hgrant := grant_congr (exposed?_resolve g m)
      simp only [resolveAll, ih, resolve_nodes, hgrant, List.mem_cons]
      by_cases hm : m = x
      · subst hm
        cases hn : g.nodes[m]? <;> simp [grant_grant]
      · simp [hm, Ne.symm hm]

open Classical in
theorem signalsTo_resolveAll {g : Graph} (hg : g.InboxesDistinct) {names : List Name}
    (hnd : names.Nodup) (i : Inbox) :
    signalsTo i (g.resolveAll names).2 =
      if ∃ m ∈ names, ∃ n, g.nodes[m]? = some n ∧ n.inbox = i ∧ g.canResolve n = true
      then [.dependenciesAvailable] else [] := by
  induction names generalizing g with
  | nil => simp [resolveAll]
  | cons m names ih =>
      obtain ⟨hm, hnd⟩ := List.nodup_cons.mp hnd
      have hcan := canResolve_congr (exposed?_resolve g m)
      -- resolving the first leaves the others as they were
      have hrest : ∀ x ∈ names, (g.resolve m).1.nodes[x]? = g.nodes[x]? := by
        intro x hx
        have hne : m ≠ x := fun he => hm (he ▸ hx)
        simp [resolve_nodes, hne]
      simp only [resolveAll, signalsTo_append, signalsTo_resolve, ih (hg.resolve m) hnd, hcan]
      have hiff : (∃ x ∈ names, ∃ n, (g.resolve m).1.nodes[x]? = some n ∧ n.inbox = i ∧
            g.canResolve n = true) ↔
          ∃ x ∈ names, ∃ n, g.nodes[x]? = some n ∧ n.inbox = i ∧ g.canResolve n = true := by
        constructor <;> rintro ⟨x, hx, h⟩ <;> exact ⟨x, hx, by simpa [hrest x hx] using h⟩
      by_cases h1 : ∃ n, g.nodes[m]? = some n ∧ n.inbox = i ∧ g.canResolve n = true
      · have h2 : ¬∃ x ∈ names, ∃ n, g.nodes[x]? = some n ∧ n.inbox = i ∧
            g.canResolve n = true := by
          rintro ⟨x, hx, n, hn, hi, _⟩
          obtain ⟨k, hk, hki, _⟩ := h1
          exact hm (hg hk hn (hki.trans hi.symm) ▸ hx)
        simp [h1, hiff, h2]
      · simp [h1, hiff]

end ServiceHost.Graph
