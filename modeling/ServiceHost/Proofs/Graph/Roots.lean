import Mathlib.Logic.Relation
import ServiceHost.Proofs.Graph.Order
import ServiceHost.Proofs.Graph.Shown

/-! # The roots cover the graph

Whoever is no root has been given its dependencies and has them still, and each of these was given
its own before. So following dependencies comes to an end, which can only be at a root. -/

namespace ServiceHost.Graph

open Relation (ReflTransGen TransGen)

/-- A service depends on another one, and both are installed. -/
def LeadsTo (g : Graph) (m d : Name) : Prop :=
  ∃ n : Node, g.nodes[m]? = some n ∧ d ∈ n.dependencies ∧ g.contains d = true

/-- A service is installed, and its controller reported that it does not wait any more. -/
def Begun (g : Graph) (m : Name) : Prop :=
  ∃ n : Node, g.nodes[m]? = some n ∧ n.state ≠ .waiting

/-- From every service the dependencies that are installed lead to a root, whichever of them are
followed: services that do not wait lack none of their dependencies and are in no cycle. -/
structure RootsCover (g : Graph) : Prop where
  reached : ∀ {m : Name}, g.contains m = true → ∃ r ∈ g.roots, ReflTransGen g.LeadsTo m r
  met : ∀ {path : Nat → Name}, g.contains (path 0) = true →
    (∀ i, path i ∉ g.roots → g.LeadsTo (path i) (path (i + 1))) → ∃ i, path i ∈ g.roots
  acyclic : ∀ {m : Name}, g.Begun m → ¬TransGen g.LeadsTo m m
  complete : ∀ {m d : Name} {n : Node}, g.nodes[m]? = some n → n.state ≠ .waiting →
    d ∈ n.dependencies → g.contains d = true

variable {g : Graph} {m d : Name}

theorem LeadsTo.contains (h : g.LeadsTo m d) : g.contains d = true :=
  let ⟨_, _, _, hd⟩ := h
  hd

/-- Whoever is no root does not wait, and depends on someone who is installed. -/
theorem begun_of_not_root (hm : g.contains m = true) (hr : m ∉ g.roots) :
    g.Begun m ∧ ∃ d, g.LeadsTo m d := by
  obtain ⟨n, hn⟩ := contains_iff.mp hm
  rw [mem_roots] at hr
  push Not at hr
  obtain ⟨hstate, d, hd, hin⟩ := hr n hn
  exact ⟨⟨n, hn, hstate⟩, d, n, hn, hd, contains_iff.mpr (Option.ne_none_iff_exists'.mp hin)⟩

/-! ## Going down -/

/-- Following dependencies from a service that does not wait leads down in some order, to services
that do not wait either. -/
def Descends (g : Graph) (rank : Name → Nat) : Prop :=
  ∀ {m d : Name}, g.Begun m → g.LeadsTo m d → g.Begun d ∧ rank d < rank m

/-- A service that does not wait has its dependencies, and none of them waits. -/
theorem Anchored.begun_dependency (hg : g.Anchored) {n : Node} (hn : g.nodes[m]? = some n)
    (hstate : n.state ≠ .waiting) (hd : d ∈ n.dependencies) : g.Begun d := by
  obtain ⟨k, hk, huse, _⟩ := hg.anchored hn (hg.resolved hn hstate) hd
  refine ⟨k, hk, ?_⟩
  rcases huse with h | h <;> simp [h]

/-- The order is that in which services were given their dependencies. -/
theorem Anchored.descends (hg : g.Anchored) : ∃ rank, g.Descends rank := by
  obtain ⟨rank, hrank⟩ := hg.ranked
  refine ⟨rank, ?_⟩
  rintro m d ⟨n, hn, hstate⟩ ⟨n', hn', hd, _⟩
  obtain rfl := Option.some.inj (hn.symm.trans hn')
  exact ⟨hg.begun_dependency hn hstate hd, hrank hn (hg.resolved hn hstate) hd⟩

namespace Descends

variable {rank : Name → Nat}

theorem trans (h : g.Descends rank) (hm : g.Begun m) (hpath : TransGen g.LeadsTo m d) :
    g.Begun d ∧ rank d < rank m := by
  induction hpath with
  | single hd => exact h hm hd
  | tail _ hd ih =>
      obtain ⟨hbegun, hlt⟩ := h ih.1 hd
      exact ⟨hbegun, Nat.lt_trans hlt ih.2⟩

/-- As long as no root is met, each step leads further down. -/
theorem sinks (h : g.Descends rank) {path : Nat → Name} (hstart : g.contains (path 0) = true)
    (hroots : ∀ i, path i ∉ g.roots) (hnext : ∀ i, g.LeadsTo (path i) (path (i + 1))) (i : Nat) :
    rank (path i) + i ≤ rank (path 0) := by
  have hin : ∀ i, g.contains (path i) = true := by
    rintro (_ | i)
    · exact hstart
    · exact (hnext i).contains
  induction i with
  | zero => exact Nat.le_refl _
  | succ i ih =>
      have hlt := (h (begun_of_not_root (hin i) (hroots i)).1 (hnext i)).2
      omega

theorem reaches_root (h : g.Descends rank) (hm : g.contains m = true) :
    ∃ r ∈ g.roots, ReflTransGen g.LeadsTo m r := by
  induction hr : rank m using Nat.strongRecOn generalizing m with
  | ind r ih =>
      subst hr
      by_cases hroot : m ∈ g.roots
      · exact ⟨m, hroot, .refl⟩
      · obtain ⟨hbegun, d, hd⟩ := begun_of_not_root hm hroot
        obtain ⟨root, hmem, hpath⟩ := ih (rank d) (h hbegun hd).2 hd.contains rfl
        exact ⟨root, hmem, hpath.head hd⟩

end Descends

theorem Anchored.rootsCover (hg : g.Anchored) : g.RootsCover := by
  obtain ⟨rank, hrank⟩ := hg.descends
  refine ⟨hrank.reaches_root, ?_, ?_, ?_⟩
  · intro path hstart hnext
    by_contra hno
    push Not at hno
    have hsunk := hrank.sinks hstart hno (fun i => hnext i (hno i)) (rank (path 0) + 1)
    omega
  · intro m hm hcycle
    exact Nat.lt_irrefl _ (hrank.trans hm hcycle).2
  · intro m d n hn hstate hd
    obtain ⟨k, hk, _⟩ := hg.begun_dependency hn hstate hd
    exact contains_iff.mpr ⟨k, hk⟩

end ServiceHost.Graph
