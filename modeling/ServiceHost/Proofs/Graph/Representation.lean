import ServiceHost.Proofs.Graph.GroupProtocol

/-! # How the graph is kept

Four maps stand for one set of services: the nodes, and three indexes over them. After every
sequence of steps each index files exactly the services that belong under a key and has no key
under which nobody does, a value is kept only by services that do not stop, and whoever awaits
dependents is stopping and awaits services that are there. -/

namespace ServiceHost

namespace Index

/-- No key is kept with nothing under it. -/
def Tidy (index : Index) : Prop := ∀ key : Name, index[key]? ≠ some ∅

/-- Under each key stand exactly the names that belong there, and a key under which none belongs
does not occur. -/
def Lists (index : Index) (Belongs : Name → Name → Prop) : Prop :=
  ∀ (key : Name) (names : Names),
    index[key]? = some names ↔ names ≠ ∅ ∧ ∀ x, x ∈ names ↔ Belongs key x

theorem tidy_empty : Tidy ∅ := by
  intro key
  simp

theorem Tidy.file {index : Index} (h : index.Tidy) (key name : Name) :
    (index.file key name).Tidy := by
  intro k hk
  rw [Index.file, Std.ExtTreeMap.getElem?_insert] at hk
  split at hk
  · have hin : name ∈ (index[key]?.getD ∅).insert name := by simp
    simp [Option.some.inj hk] at hin
  · exact h k hk

theorem Tidy.unfile {index : Index} (h : index.Tidy) (key name : Name) :
    (index.unfile key name).Tidy := by
  intro k hk
  unfold Index.unfile at hk
  split at hk
  · exact h k hk
  · split at hk
    · rw [Std.ExtTreeMap.getElem?_erase] at hk
      split at hk
      · cases hk
      · exact h k hk
    · next hne =>
        rw [Std.ExtTreeMap.getElem?_insert] at hk
        split at hk
        · exact hne (Std.ExtTreeSet.isEmpty_iff.mpr (Option.some.inj hk))
        · exact h k hk

theorem Tidy.fileAll {index : Index} (h : index.Tidy) (keys : List Name) (name : Name) :
    (index.fileAll keys name).Tidy := by
  unfold Index.fileAll
  induction keys generalizing index with
  | nil => exact h
  | cons key keys ih => exact ih (h.file key name)

theorem Tidy.unfileAll {index : Index} (h : index.Tidy) (keys : List Name) (name : Name) :
    (index.unfileAll keys name).Tidy := by
  unfold Index.unfileAll
  induction keys generalizing index with
  | nil => exact h
  | cons key keys ih => exact ih (h.unfile key name)

/-- Without empty sets, an index is known from the members of its keys. -/
theorem Tidy.lists {index : Index} (h : index.Tidy) {Belongs : Name → Name → Prop}
    (hmem : ∀ {key x : Name}, x ∈ index.members key ↔ Belongs key x) : index.Lists Belongs := by
  have hfiled : ∀ {key : Name} {names : Names}, index[key]? = some names →
      ∀ x, x ∈ names ↔ Belongs key x := by
    intro key names hk x
    rw [← hmem, mem_members, hk, Option.getD_some]
  intro key names
  constructor
  · intro hk
    exact ⟨fun he => h key (he ▸ hk), hfiled hk⟩
  · rintro ⟨hne, hnames⟩
    obtain ⟨x, hx⟩ := Names.exists_mem_of_ne_empty hne
    -- somebody belongs under the key, so it occurs
    have hin : x ∈ index[key]?.getD ∅ := mem_members.mp (hmem.mpr ((hnames x).mp hx))
    cases hk : index[key]? with
    | none => simp [hk] at hin
    | some kept =>
        rw [Std.ExtTreeSet.ext_mem fun y => (hfiled hk y).trans (hnames y).symm]

end Index

namespace Graph

variable {g g' : Graph} {a : Name} {n : Node}

/-- No index keeps a key with nothing under it. -/
structure Tidy (g : Graph) : Prop where
  dependents : g.dependents.Tidy
  groups : g.groups.Tidy
  referrers : g.referrers.Tidy

theorem tidy_empty : Tidy empty := ⟨Index.tidy_empty, Index.tidy_empty, Index.tidy_empty⟩

theorem Tidy.enter (h : g.Tidy) (r : Registration) (i : Inbox) : (g.enter r i).Tidy :=
  ⟨h.dependents.fileAll _ _, h.groups.fileAll _ _, h.referrers.fileAll _ _⟩

theorem Tidy.leave (h : g.Tidy) (a : Name) (n : Node) : (g.leave a n).Tidy :=
  ⟨h.dependents.unfileAll _ _, h.groups.unfileAll _ _, h.referrers.unfileAll _ _⟩

/-- What leaves all three indexes alone keeps them tidy. -/
theorem Agree.tidy {α : Type} {view : Node → α} (h : Agree view g g')
    (hd : g'.dependents = g.dependents) (hg : g.Tidy) : g'.Tidy :=
  ⟨hd ▸ hg.dependents, h.groups ▸ hg.groups, h.referrers ▸ hg.referrers⟩

theorem Tidy.register (h : g.Tidy) (r : Registration) (i : Inbox) :
    (g.register r i).1.Tidy := by
  have hties : Agree Node.ties (g.enter r i) (g.register r i).1 :=
    agree_resolve (fun _ _ => rfl) _ r.name
  exact hties.tidy (resolve_dependents _ _) (h.enter r i)

theorem Tidy.beginStopping (h : g.Tidy) (a : Name) : (g.beginStopping a).1.Tidy :=
  (agree_beginStopping g a).tidy (beginStopping_dependents g a) h

theorem Tidy.unregister (h : g.Tidy) (hn : g.nodes[a]? = some n) : (g.unregister a).1.Tidy := by
  have hties : Agree Node.ties (g.leave a n) (strikeAll a (g.leave a n) n.dependencies.toList).1 :=
    agree_strikeAll (fun _ _ => rfl) a _ _
  rw [unregister_eq hn]
  exact hties.tidy (strikeAll_dependents a _ _) (h.leave a n)

theorem Tidy.report (h : g.Tidy) (hg : g.Coherent) (hn : g.nodes[a]? = some n) (state : State)
    (value : Option Value) : (g.report a state value).1.Tidy := by
  have hnoted : (g.note a n state).Tidy := (agree_note hn state).tidy rfl h
  rcases report_cases hn state value with ⟨_, he⟩ | ⟨v, rfl, rfl, hs⟩ | ⟨hl, hr⟩ | rfl
  · rw [he]
    exact hnoted
  · rw [report_started hn hs]
    exact ((agree_present hn v).trans (agree_resolveAll (fun _ _ => rfl) _ _)).tidy
      (resolveAll_dependents _ _) h
  · rw [report_stop hn hl hr]
    exact hnoted.beginStopping a
  · have hnode := hg.leaving_nodes hn a
    rw [if_pos rfl] at hnode
    rw [report_removed hn]
    exact (hnoted.beginStopping a).unregister hnode

/-! ## Every sequence of steps -/

namespace Trial

theorem tidy_next {t : Trial} (ht : t.Sound) (h : t.graph.Tidy) (s : TrialStep) :
    (t.next s).graph.Tidy := by
  cases s with
  | register a ds group refs =>
      by_cases hc : t.graph.contains a = true
      · rwa [next_register_of_taken hc]
      · rw [next_register_of_free hc]
        exact h.register ⟨a, ds, group, refs⟩ t.inboxes.length
  | report a state value =>
      cases hn : t.graph.nodes[a]? with
      | none => simpa [next, perform, report_of_none hn] using h
      | some n => exact h.report ht.coherent hn state value
  | remove a =>
      show (t.graph.requestRemoval a).1.Tidy
      rw [requestRemoval_fst]
      exact h.beginStopping a
  | contains a | state a | disconnect a => exact h

theorem tidy_after (past : List TrialStep) : (after past).graph.Tidy := by
  induction past using List.reverseRecOn with
  | nil => exact tidy_empty
  | append_singleton past s ih =>
      rw [after_append]
      exact tidy_next (sound_after past) ih s

end Trial

/-- What the four maps of a graph have to do with each other. -/
structure Represents (g : Graph) : Prop where
  /-- Whoever depends on a name is filed under it, and nobody else. -/
  dependents : g.dependents.Lists fun d m => ∃ n : Node, g.nodes[m]? = some n ∧ d ∈ n.dependencies
  /-- The members of a group are filed under it, and nobody else. -/
  groups : g.groups.Lists fun group m => ∃ n : Node, g.nodes[m]? = some n ∧ n.group = some group
  /-- Whoever refers to a group is filed under it, and nobody else. -/
  referrers : g.referrers.Lists fun group m =>
    ∃ n : Node, g.nodes[m]? = some n ∧ group ∈ n.references
  /-- A service with a value does not stop. -/
  value : ∀ {m : Name} {n : Node} {v : Value}, g.nodes[m]? = some n → n.value = some v →
    n.stopping = false
  /-- Whoever awaits dependents is stopping, and awaits somebody. -/
  pending : ∀ {m : Name} {n : Node} {p : Names}, g.nodes[m]? = some n →
    n.pendingDependents = some p → n.stopping = true ∧ p ≠ ∅
  /-- Whoever is awaited is installed, and depends on the service that awaits it. -/
  awaited : ∀ {m x : Name} {n : Node} {p : Names}, g.nodes[m]? = some n →
    n.pendingDependents = some p → x ∈ p →
    ∃ k : Node, g.nodes[x]? = some k ∧ m ∈ k.dependencies

/-- The maps of the graph fit together after every sequence of steps, whatever was reported. -/
theorem Trial.represents (past : List TrialStep) : (after past).graph.Represents where
  dependents := (tidy_after past).dependents.lists (sound_after past).coherent.dependents
  groups := (tidy_after past).groups.lists (filed_after past).members
  referrers := (tidy_after past).referrers.lists (filed_after past).referrers
  value := by
    intro m n v hn hv
    have hnone := (sound_after past).coherent.value hn
    by_contra hs
    simp [hnone (by simpa using hs)] at hv
  pending := by
    intro m n p hn hp
    obtain ⟨hs, hne, _⟩ := (sound_after past).coherent.pending hn hp
    exact ⟨hs, hne⟩
  awaited := fun hn hp hx => ((sound_after past).coherent.pending hn hp).2.2 _ hx

end Graph

end ServiceHost
