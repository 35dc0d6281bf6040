import Mathlib.Data.List.Nodup
import Mathlib.Data.List.Perm.Subperm
import ServiceHost.Graph
import ServiceHost.Proofs.Graph.Coherence

/-! # How much an operation sends

No operation on the graph sends more messages than a small multiple of the services installed. -/

namespace ServiceHost

namespace Graph

variable {g g' : Graph} {a : Name}

theorem nodup_keys (g : Graph) : g.nodes.keys.Nodup :=
  Std.ExtTreeMap.nodup_keys

theorem mem_keys : a ∈ g.nodes.keys ↔ g.contains a = true := by
  rw [Std.ExtTreeMap.mem_keys, contains, Std.ExtTreeMap.mem_iff_contains]

/-- No more names can be told apart among the installed services than there are. -/
theorem length_le_size {names : List Name} (hd : names.Nodup)
    (h : ∀ a ∈ names, g.contains a = true) : names.length ≤ g.nodes.size := by
  rw [← Std.ExtTreeMap.length_keys]
  exact (hd.subperm fun a ha => mem_keys.mpr (h a ha)).length_le

theorem size_le_of_contains (h : ∀ a, g'.contains a = true → g.contains a = true) :
    g'.nodes.size ≤ g.nodes.size := by
  rw [← Std.ExtTreeMap.length_keys]
  exact length_le_size g'.nodup_keys fun a ha => h a (mem_keys.mp ha)

/-- There are no more services than inboxes were handed out. -/
theorem size_le_of_inboxes (hg : g.InboxesDistinct) {bound : Nat}
    (h : ∀ {m : Name} {n : Node}, g.nodes[m]? = some n → n.inbox < bound) :
    g.nodes.size ≤ bound := by
  let inbox : Name → Inbox := fun a => (g.nodes[a]?.map Node.inbox).getD 0
  have hinbox : ∀ a ∈ g.nodes.keys, ∃ n, g.nodes[a]? = some n ∧ inbox a = n.inbox := by
    intro a ha
    obtain ⟨n, hn⟩ := contains_iff.mp (mem_keys.mp ha)
    exact ⟨n, hn, by simp [inbox, hn]⟩
  have hnodup : (g.nodes.keys.map inbox).Nodup := by
    refine List.Nodup.map_on (fun a ha b hb he => ?_) g.nodup_keys
    obtain ⟨n, hn, hi⟩ := hinbox a ha
    obtain ⟨k, hk, hj⟩ := hinbox b hb
    exact hg hn hk (hi.symm.trans (he.trans hj))
  have hsub : g.nodes.keys.map inbox ⊆ List.range bound := by
    intro i hi
    obtain ⟨a, ha, rfl⟩ := List.mem_map.mp hi
    obtain ⟨n, hn, hi⟩ := hinbox a ha
    rw [hi]
    exact List.mem_range.mpr (h hn)
  have hle := (hnodup.subperm hsub).length_le
  rwa [List.length_map, Std.ExtTreeMap.length_keys, List.length_range] at hle

/-! ## Notices -/

theorem length_notifyAll_le {names : List Name} (hd : names.Nodup) (message : Message) :
    (g.notifyAll names message).length ≤ g.nodes.size := by
  have hle : ∀ l : List Name,
      (g.notifyAll l message).length = (l.filter g.contains).length := by
    intro l
    induction l with
    | nil => rfl
    | cons a l ih =>
        unfold notifyAll at ih ⊢
        rw [List.filterMap_cons, List.filter_cons, contains_eq]
        cases g.nodes[a]? with
        | none => exact ih
        | some n => simpa using ih
  rw [hle]
  exact length_le_size (hd.filter _) fun a ha => (List.mem_filter.mp ha).2

theorem length_dependentsOf_le (g : Graph) (a : Name) :
    (g.dependentsOf a).length ≤ g.nodes.size :=
  length_le_size ((Index.nodup_members _ _).filter _) fun _ hx => (List.mem_filter.mp hx).2

theorem length_exposedMembers_le (g : Graph) (group : Name) :
    (g.exposedMembers group).length ≤ g.nodes.size := by
  unfold exposedMembers
  have hfst : ((g.groups.members group).filterMap fun member =>
      (g.exposed? member).map (member, ·)).map Prod.fst =
        (g.groups.members group).filter fun member => (g.exposed? member).isSome := by
    induction g.groups.members group with
    | nil => rfl
    | cons a l ih =>
        rw [List.filterMap_cons, List.filter_cons]
        cases g.exposed? a with
        | none => exact ih
        | some v => simpa using ih
  rw [← List.length_map Prod.fst, hfst]
  refine length_le_size ((Index.nodup_members _ _).filter _) fun a ha => ?_
  have hsome := (List.mem_filter.mp ha).2
  unfold exposed? at hsome
  rw [contains_eq]
  cases hn : g.nodes[a]? with
  | none => simp [hn] at hsome
  | some n => rfl

theorem length_roots_le (g : Graph) : g.roots.length ≤ g.nodes.size := by
  unfold roots
  rw [List.length_map, ← Std.ExtTreeMap.length_toList]
  exact List.length_filter_le _ _

/-! ## Operations -/

theorem contains_setNode {n : Node} (hn : g.nodes[a]? = some n) (k : Node) (x : Name) :
    (g.setNode a k).contains x = g.contains x := by
  rw [contains_eq, contains_eq, setNode_nodes]
  split
  · next h => rw [← h, hn]; rfl
  · rfl

theorem contains_beginStopping (g : Graph) (a x : Name) :
    (g.beginStopping a).1.contains x = g.contains x := by
  unfold beginStopping
  split
  · rfl
  · next n hn =>
    split
    · rfl
    · dsimp only
      split
      · exact contains_setNode hn _ x
      · exact contains_setNode hn _ x

theorem length_beginStopping_le (g : Graph) (a : Name) :
    (g.beginStopping a).2.length ≤ 2 * g.nodes.size + 1 := by
  unfold beginStopping
  split
  · exact Nat.zero_le _
  · next n hn =>
    split
    · exact Nat.zero_le _
    · have hreferrers : ∀ group, (g.notifyAll (g.referrersOf group)
          (.reference (.removed group a))).length ≤ g.nodes.size :=
        fun _ => length_notifyAll_le (Index.nodup_members _ _) _
      have hdependents : (g.notifyAll (g.dependentsOf a)
          (.lifecycle .dependenciesUnavailable)).length ≤ g.nodes.size :=
        length_notifyAll_le ((Index.nodup_members _ _).filter _) _
      dsimp only
      split
      · rw [List.length_append, List.length_singleton]
        split
        · next group _ _ =>
          have hleft := hreferrers group
          omega
        · exact Nat.add_le_add_right (Nat.zero_le _) 1
      · rw [List.length_append]
        split
        · next group _ _ =>
          have hleft := hreferrers group
          omega
        · rw [List.length_nil]
          omega

theorem contains_requestRemoval (g : Graph) (a x : Name) :
    (g.requestRemoval a).1.contains x = g.contains x := by
  unfold requestRemoval
  split
  · rfl
  · exact contains_beginStopping g a x

theorem length_requestRemoval_le (g : Graph) (a : Name) :
    (g.requestRemoval a).2.length ≤ 2 * g.nodes.size + 2 := by
  unfold requestRemoval
  split
  · exact Nat.zero_le _
  · exact Nat.succ_le_succ (length_beginStopping_le g a)

theorem length_resolveAll_le (g : Graph) (names : List Name) :
    (g.resolveAll names).2.length ≤ names.length := by
  induction names generalizing g with
  | nil => exact Nat.le_refl 0
  | cons a names ih =>
      have hone : (g.resolve a).2.length ≤ 1 := by
        unfold resolve
        repeat' first | split | exact Nat.zero_le _ | exact Nat.le_refl 1
      have hrest := ih (g.resolve a).1
      simp only [resolveAll, List.length_append, List.length_cons]
      omega

theorem contains_strike (g : Graph) (dependent a x : Name) :
    (g.strike dependent a).1.contains x = g.contains x := by
  unfold strike
  split
  · rfl
  · next n hn =>
    split
    · rfl
    · split
      · exact contains_setNode hn _ x
      · exact contains_setNode hn _ x

/-- Only those who are installed can be told that they may stop. -/
theorem length_strikeAll_le (g : Graph) (dependent : Name) (names : List Name) :
    (strikeAll dependent g names).2.length ≤ (names.filter g.contains).length := by
  induction names generalizing g with
  | nil => exact Nat.le_refl 0
  | cons a names ih =>
      have hrest := ih (g.strike dependent a).1
      rw [List.filter_congr fun x _ => contains_strike g dependent a x] at hrest
      simp only [strikeAll, List.length_append, List.filter_cons]
      have hone : (g.strike dependent a).2.length ≤ if g.contains a then 1 else 0 := by
        unfold strike
        split
        · exact Nat.zero_le _
        · next n hn =>
          rw [contains_eq, hn, Option.isSome_some, if_pos rfl]
          split
          · exact Nat.zero_le _
          · split
            · exact Nat.le_refl 1
            · exact Nat.zero_le _
      split
      · next h =>
        rw [if_pos h] at hone
        rw [List.length_cons]
        omega
      · next h =>
        rw [if_neg h] at hone
        omega

theorem length_unregister_le (g : Graph) (a : Name) :
    (g.unregister a).2.length ≤ g.nodes.size := by
  unfold unregister
  split
  · exact Nat.zero_le _
  · next n hn =>
    have hstruck := fun g' : Graph => length_le_size (g := g')
      ((Names.nodup_toList n.dependencies).filter g'.contains)
      fun x hx => (List.mem_filter.mp hx).2
    refine Nat.le_trans (length_strikeAll_le _ a _) (Nat.le_trans (hstruck _)
      (size_le_of_contains fun x hx => ?_))
    rw [contains_eq, Std.ExtTreeMap.getElem?_erase] at hx
    rw [contains_eq]
    split at hx
    · contradiction
    · exact hx

theorem length_exposeStarted_le (g : Graph) (a : Name) (value : Option Value) :
    (g.exposeStarted a value).2.length ≤ 2 * g.nodes.size := by
  unfold exposeStarted
  split
  · next n v hn =>
    split
    · exact Nat.zero_le _
    · have hresolved := Nat.le_trans (length_resolveAll_le
        (g.setNode a { n with value := some v }) (g.dependentsOf a)) (length_dependentsOf_le g a)
      have hsize : ((g.setNode a { n with value := some v }).resolveAll
          (g.dependentsOf a)).1.nodes.size ≤ g.nodes.size := by
        refine size_le_of_contains fun x hx => ?_
        rwa [(resolveAll_updates _ _).contains, contains_setNode hn] at hx
      have hjoined : ∀ {g' : Graph} (groups : Option Name), g'.nodes.size ≤ g.nodes.size →
          (groups.toList.flatMap fun group => g'.notifyAll (g'.referrersOf group)
            (.reference (.added group a v))).length ≤ g.nodes.size := by
        intro g' groups hle
        cases groups with
        | none => exact Nat.zero_le _
        | some group =>
            rw [Option.toList_some, List.flatMap_singleton]
            exact Nat.le_trans (length_notifyAll_le (Index.nodup_members _ _) _) hle
      have hgroup := hjoined n.group hsize
      rw [List.length_append]
      omega
  · exact Nat.zero_le _

theorem length_report_le (g : Graph) (a : Name) (state : State) (value : Option Value) :
    (g.report a state value).2.length ≤ 3 * g.nodes.size + 1 := by
  unfold report
  split
  · exact Nat.zero_le _
  · next n hn =>
    have hsize : (g.setNode a { n with state }).nodes.size ≤ g.nodes.size :=
      size_le_of_contains fun x hx => by rwa [contains_setNode hn] at hx
    have hstop := length_beginStopping_le (g.setNode a { n with state }) a
    cases state with
    | waiting | starting => exact Nat.zero_le _
    | started =>
        have hexpose := length_exposeStarted_le (g.setNode a { n with state := .started }) a value
        dsimp only
        omega
    | draining | stopping =>
        dsimp only
        omega
    | removed =>
        have hgone := length_unregister_le
          ((g.setNode a { n with state := .removed }).beginStopping a).1 a
        have hsame : ((g.setNode a { n with state := .removed }).beginStopping a).1.nodes.size ≤
            (g.setNode a { n with state := .removed }).nodes.size :=
          size_le_of_contains fun x hx => by rwa [contains_beginStopping] at hx
        simp only [List.length_append]
        omega

/-- A new service is told at most of every service once for each group it refers to. -/
theorem length_register_le (g : Graph) (r : Registration) (inbox : Inbox) :
    (g.register r inbox).2.length ≤ r.references.size * g.nodes.size + 1 := by
  have hmembers : ∀ (tell : Name → Name × Value → Delivery) (groups : List Name),
      (groups.flatMap fun group => (g.exposedMembers group).map (tell group)).length ≤
        groups.length * g.nodes.size := by
    intro tell groups
    induction groups with
    | nil => exact Nat.zero_le _
    | cons group groups ih =>
        have hone := length_exposedMembers_le g group
        rw [List.flatMap_cons, List.length_append, List.length_map, List.length_cons,
          Nat.succ_mul]
        omega
  have hresolve : ∀ (g : Graph) (x : Name), (g.resolve x).2.length ≤ 1 := by
    intro g x
    simpa [resolveAll] using length_resolveAll_le g [x]
  unfold register
  rw [List.length_append]
  refine Nat.add_le_add ?_ (hresolve _ _)
  rw [← Std.ExtTreeSet.length_toList]
  exact hmembers _ r.references.toList

end Graph

end ServiceHost
