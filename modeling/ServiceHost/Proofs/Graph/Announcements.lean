import ServiceHost.Proofs.Graph.Membership

/-! # What referrers are told

Each operation on the graph changes at most one service's place in its group, and tells exactly
that to everyone who refers to the group; whoever is registered is told who is there. -/

namespace ServiceHost.Graph

variable {group a m : Name} {v : Value} {g g' : Graph} {n k : Node} {i : Inbox}

/-! ## Whom an operation tells of what -/

open Classical in
/-- What an operation changes about who is shown in which group, and whom it tells. The inbox
given is that of a service registered by the operation, if it does that. -/
inductive Change (entrant : Inbox) (g g' : Graph) (sent : List Delivery) : Prop
  | stays (hm : ∀ group m, g'.member? group m = g.member? group m)
      (hs : ∀ i, updatesTo i sent = [])
  | joins (group a : Name) (v : Value)
      (hm : ∀ group' m, g'.member? group' m =
        if group' = group ∧ m = a then some v else g.member? group' m)
      (hs : ∀ i, updatesTo i sent = if g.Refers i group then [.added group a v] else [])
  | leaves (group a : Name) (ha : (g.member? group a).isSome = true)
      (hm : ∀ group' m, g'.member? group' m =
        if group' = group ∧ m = a then none else g.member? group' m)
      (hs : ∀ i, updatesTo i sent = if g.Refers i group then [.removed group a] else [])
  | enters (hm : ∀ group m, g'.member? group m = g.member? group m)
      (hs : ∀ i, i ≠ entrant → updatesTo i sent = [])
      (hadd : ∀ group m, .removed group m ∉ updatesTo entrant sent)

variable {entrant : Inbox} {sent sent' : List Delivery}

theorem Change.refl (entrant : Inbox) (g : Graph) : Change entrant g g [] :=
  .stays (fun _ _ => rfl) fun _ => rfl

/-- Whoever refers to no group is told of no change, unless it is being registered. -/
theorem Change.quiet (h : Change entrant g g' sent) (hi : i ≠ entrant)
    (hno : ∀ group, ¬g.Refers i group) : updatesTo i sent = [] := by
  cases h with
  | stays _ hs => exact hs i
  | joins group a v _ hs => rw [hs, if_neg (hno group)]
  | leaves group a _ _ hs => rw [hs, if_neg (hno group)]
  | enters _ hs _ => exact hs i hi

/-- Whoever is said to have joined a group is shown there from now on. -/
theorem Change.member?_of_added (h : Change entrant g g' sent) (hi : i ≠ entrant)
    (hu : .added group m v ∈ updatesTo i sent) : g'.member? group m = some v := by
  cases h with
  | stays _ hs => simp [hs] at hu
  | joins group' a w hm hs =>
      rw [hs] at hu
      split at hu
      · obtain ⟨rfl, rfl, rfl⟩ : group = group' ∧ m = a ∧ v = w := by simpa using hu
        rw [hm, if_pos ⟨rfl, rfl⟩]
      · cases hu
  | leaves group' a _ _ hs =>
      rw [hs] at hu
      split at hu <;> simp at hu
  | enters _ hs _ => simp [hs i hi] at hu

/-- What nobody sees may change before. -/
theorem Change.after {g₀ : Graph} (h : Change entrant g g' sent) (ht : Agree Node.ties g₀ g)
    (hf : Agree Node.face g₀ g) : Change entrant g₀ g' sent := by
  classical
  have hm : ∀ group m, g.member? group m = g₀.member? group m :=
    fun _ m => member?_congr (hf.nodes m)
  have hr : ∀ i group, g.Refers i group ↔ g₀.Refers i group := fun _ _ => ht.refers
  cases h with
  | stays hm' hs => exact .stays (fun group m => (hm' group m).trans (hm group m)) hs
  | joins group a v hm' hs =>
      exact .joins group a v (fun group' m => by rw [hm', hm]) fun i => by
        rw [hs]; exact if_congr (hr i group) rfl rfl
  | leaves group a ha hm' hs =>
      exact .leaves group a (by rwa [hm] at ha) (fun group' m => by rw [hm', hm]) fun i => by
        rw [hs]; exact if_congr (hr i group) rfl rfl
  | enters hm' hs hadd => exact .enters (fun group m => (hm' group m).trans (hm group m)) hs hadd

/-- What nobody sees may change behind, and nobody is told of it. -/
theorem Change.andThen {g'' : Graph} (h : Change entrant g g' sent)
    (hm : ∀ group m, g''.member? group m = g'.member? group m)
    (hs : ∀ i, updatesTo i sent' = []) : Change entrant g g'' (sent ++ sent') := by
  have hsent : ∀ i, updatesTo i (sent ++ sent') = updatesTo i sent := by simp [hs]
  cases h with
  | stays hm' hs' => exact .stays (fun group m => by rw [hm, hm']) fun i => by rw [hsent, hs']
  | joins group a v hm' hs' =>
      exact .joins group a v (fun group' m => by rw [hm, hm']) fun i => by rw [hsent, hs']
  | leaves group a ha hm' hs' =>
      exact .leaves group a ha (fun group' m => by rw [hm, hm']) fun i => by rw [hsent, hs']
  | enters hm' hs' hadd =>
      exact .enters (fun group m => by rw [hm, hm']) (fun i hi => by rw [hsent, hs' i hi])
        fun group m => by rw [hsent]; exact hadd group m

theorem updatesTo_resolve (g : Graph) (m : Name) (i : Inbox) :
    updatesTo i (g.resolve m).2 = [] := by
  cases hn : g.nodes[m]? with
  | none => simp [resolve, hn]
  | some n =>
      rw [resolve_eq g m n hn]
      split <;> simp

theorem updatesTo_resolveAll (g : Graph) (names : List Name) (i : Inbox) :
    updatesTo i (g.resolveAll names).2 = [] := by
  induction names generalizing g with
  | nil => rfl
  | cons m names ih => simp [resolveAll, updatesTo_resolve, ih]

theorem updatesTo_strikeAll (a : Name) (g : Graph) (names : List Name) (i : Inbox) :
    updatesTo i (strikeAll a g names).2 = [] := by
  induction names generalizing g with
  | nil => rfl
  | cons m names ih =>
      have hm : updatesTo i (g.strike a m).2 = [] := by
        unfold Graph.strike
        split
        · rfl
        · split
          · rfl
          · split <;> simp
      simp [strikeAll, hm, ih]

/-! ## A service starts to stop -/

/-- A service that starts to stop leaves its group if it is shown there. -/
theorem Filed.change_beginStopping (h : g.Filed) (hg : g.InboxesDistinct) (a : Name) :
    Change entrant g (g.beginStopping a).1 (g.beginStopping a).2 := by
  cases hn : g.nodes[a]? with
  | none =>
      rw [beginStopping_of_none hn]
      exact .refl entrant g
  | some n =>
      cases hs : n.stopping with
      | true =>
          rw [beginStopping_of_stopping hn hs]
          exact .refl entrant g
      | false =>
          obtain ⟨k, hk, hgraph, hsent⟩ : ∃ k : Node, k.stopping = true ∧
              (g.beginStopping a).1 = g.setNode a k ∧
              ∀ i, updatesTo i (g.beginStopping a).2 =
                n.value.toList.flatMap fun _ => n.group.toList.flatMap fun group =>
                  updatesTo i (g.notifyAll (g.referrersOf group)
                    (.reference (.removed group a))) := by
            simp only [beginStopping, hn, hs, Bool.false_eq_true, if_false]
            cases n.value <;> cases n.group <;> split <;>
              exact ⟨_, rfl, rfl, fun i => by simp⟩
          have hgone : ∀ group, (g.setNode a k).member? group a = none := fun group =>
            member?_of_not fun n' hn' => by
              rw [setNode_nodes, if_pos rfl] at hn'
              exact .inl (Option.some.inj hn' ▸ hk)
          have hrest : ∀ group m, m ≠ a → (g.setNode a k).member? group m = g.member? group m :=
            fun group m hm => member?_congr (by rw [setNode_nodes, if_neg (Ne.symm hm)])
          -- it is shown in a group only with a value
          by_cases hshown : ∃ w group, n.value = some w ∧ n.group = some group
          · obtain ⟨w, group, hw, hgroup⟩ := hshown
            refine .leaves group a (by simp [member?, hn, hs, hgroup, hw]) (fun group' m => ?_)
              fun i => ?_
            · rw [hgraph]
              by_cases hm : m = a
              · subst hm
                rw [hgone]
                split
                · rfl
                · next hne =>
                    refine (member?_of_not fun n' hn' => .inr (.inr ?_)).symm
                    rw [← Option.some.inj (hn.symm.trans hn'), hgroup]
                    exact fun he => hne ⟨(Option.some.inj he).symm, rfl⟩
              · rw [hrest group' m hm, if_neg fun h => hm h.2]
            · rw [hsent i, hw, hgroup, Option.toList_some, List.flatMap_singleton,
                Option.toList_some, List.flatMap_singleton]
              exact h.updatesTo_referrers hg _ i
          · refine .stays (fun group m => ?_) fun i => ?_
            · rw [hgraph]
              by_cases hm : m = a
              · subst hm
                rw [hgone]
                refine (member?_of_not fun n' hn' => .inr ?_).symm
                rw [← Option.some.inj (hn.symm.trans hn')]
                cases hw : n.value with
                | none => exact .inl rfl
                | some w => exact .inr fun hgroup => hshown ⟨w, group, hw, hgroup⟩
              · exact hrest group m hm
            · rw [hsent i]
              cases hw : n.value with
              | none => rfl
              | some w =>
                  cases hgroup : n.group with
                  | none => rfl
                  | some group => exact absurd ⟨w, group, hw, hgroup⟩ hshown

theorem Filed.change_requestRemoval (h : g.Filed) (hg : g.InboxesDistinct) (a : Name) :
    Change entrant g (g.requestRemoval a).1 (g.requestRemoval a).2 := by
  cases hn : g.nodes[a]? with
  | none =>
      rw [requestRemoval_of_none hn]
      exact .refl entrant g
  | some n =>
      have hsent : ∀ i, updatesTo i (g.requestRemoval a).2 = updatesTo i (g.beginStopping a).2 := by
        simp [requestRemoval, hn]
      rw [requestRemoval_fst]
      have hchange : Change entrant g (g.beginStopping a).1 (g.beginStopping a).2 :=
        h.change_beginStopping hg a
      cases hchange with
      | stays hm hs => exact .stays hm fun i => (hsent i).trans (hs i)
      | joins group a v hm hs => exact .joins group a v hm fun i => (hsent i).trans (hs i)
      | leaves group a ha hm hs => exact .leaves group a ha hm fun i => (hsent i).trans (hs i)
      | enters hm hs hadd =>
          exact .enters hm (fun i hi => (hsent i).trans (hs i hi))
            fun group m => by rw [hsent]; exact hadd group m

/-! ## A start is reported -/

theorem agree_note (hn : g.nodes[a]? = some n) (state : State) :
    Agree Node.ties g (g.note a n state) := agree_setNode hn rfl

theorem agree_present (hn : g.nodes[a]? = some n) (v : Value) :
    Agree Node.ties g (g.present a n v) := agree_setNode hn rfl

/-- A service that is exposed is announced to those who refer to its group. -/
theorem updatesTo_exposeStarted (hn : g.nodes[a]? = some n) (hs : n.stopping = false) (v : Value)
    (i : Inbox) : updatesTo i (g.exposeStarted a (some v)).2 =
      updatesTo i (n.group.toList.flatMap fun group =>
        (g.exposeStarted a (some v)).1.notifyAll ((g.exposeStarted a (some v)).1.referrersOf group)
          (.reference (.added group a v))) := by
  simp only [exposeStarted, hn, hs, Bool.false_eq_true, if_false, updatesTo_append,
    updatesTo_resolveAll, List.nil_append]

theorem agree_started (hn : g.nodes[a]? = some n) (hs : n.stopping = false) (v : Value) :
    Agree Node.ties g (g.report a .started (some v)).1 := by
  rw [report_started hn hs]
  exact (agree_present hn v).trans (agree_resolveAll (fun _ _ => rfl) _ _)

theorem updatesTo_started (hn : g.nodes[a]? = some n) (hs : n.stopping = false) (v : Value)
    (i : Inbox) : updatesTo i (g.report a .started (some v)).2 =
      updatesTo i (n.group.toList.flatMap fun group =>
        (g.report a .started (some v)).1.notifyAll
          ((g.report a .started (some v)).1.referrersOf group) (.reference (.added group a v))) := by
  have hnote : (g.note a n .started).nodes[a]? = some { n with state := .started } := by
    simp [note, setNode_nodes]
  simp only [report, hn]
  exact updatesTo_exposeStarted hnote hs v i

/-- Whoever is told of a start is told that the service joined its group. -/
theorem eq_added_of_started (hn : g.nodes[a]? = some n) (hs : n.stopping = false)
    {u : GroupUpdate} (h : u ∈ updatesTo i (g.report a .started (some v)).2) :
    ∃ group, u = .added group a v := by
  rw [updatesTo_started hn hs, mem_updatesTo, List.mem_flatMap] at h
  obtain ⟨group, -, h⟩ := h
  obtain ⟨m, -, hm⟩ := List.mem_filterMap.mp h
  obtain ⟨k, -, hk⟩ := Option.map_eq_some_iff.mp hm
  injection hk with _ hmessage
  exact ⟨group, (Message.reference.inj hmessage).symm⟩

/-- A service that has started is shown in its group. -/
theorem member?_started (hn : g.nodes[a]? = some n) (hs : n.stopping = false) (v : Value)
    (group m : Name) : (g.report a .started (some v)).1.member? group m =
      if n.group = some group ∧ m = a then some v else g.member? group m := by
  have hface : Agree Node.face (g.present a n v) (g.report a .started (some v)).1 := by
    rw [report_started hn hs]
    exact agree_resolveAll (fun _ _ => rfl) _ _
  rw [member?_congr (hface.nodes m)]
  by_cases hm : m = a
  · subst hm
    by_cases hgroup : n.group = some group <;>
      simp [member?, present_nodes, hn, hs, hgroup]
  · simp [member?, present_nodes, hm, Ne.symm hm]

/-- A service that has started joins its group. -/
theorem Filed.change_started (h : g.Filed) (hg : g.InboxesDistinct) (hn : g.nodes[a]? = some n)
    (hs : n.stopping = false) (v : Value) :
    Change entrant g (g.report a .started (some v)).1 (g.report a .started (some v)).2 := by
  have hties := agree_started hn hs v
  have hdistinct : (g.report a .started (some v)).1.InboxesDistinct := by
    rw [report_started hn hs]
    exact (resolveAll_updates _ _).inboxesDistinct ((present_updates hn v).inboxesDistinct hg)
  have hsent := updatesTo_started hn hs v
  have hmember := member?_started hn hs v
  cases hgroup : n.group with
  | none =>
      refine .stays (fun group' m => ?_) fun i => by simp [hsent i, hgroup]
      simp [hmember, hgroup]
  | some group =>
      refine .joins group a v (fun group' m => ?_) fun i => ?_
      · simp only [hmember, hgroup, Option.some.injEq, eq_comm (a := group)]
      · classical
        rw [hsent i, hgroup, Option.toList_some, List.flatMap_singleton,
          (hties.filed h).updatesTo_referrers hdistinct]
        exact if_congr hties.refers rfl rfl

/-! ## A removal is reported -/

/-- The graph a removed service leaves, before it is struck from those that awaited it. -/
def leave (g : Graph) (a : Name) (n : Node) : Graph :=
  { nodes := g.nodes.erase a
    dependents := g.dependents.unfileAll n.dependencies.toList a
    groups := g.groups.unfileAll n.group.toList a
    referrers := g.referrers.unfileAll n.references.toList a }

theorem leave_nodes (g : Graph) (a m : Name) (n : Node) :
    (g.leave a n).nodes[m]? = if a = m then none else g.nodes[m]? := by
  simp [leave, Std.ExtTreeMap.getElem?_erase]

theorem unregister_eq (hn : g.nodes[a]? = some n) :
    g.unregister a = strikeAll a (g.leave a n) n.dependencies.toList := by
  simp [unregister, hn, leave]

theorem Filed.leave (h : g.Filed) (hn : g.nodes[a]? = some n) : (g.leave a n).Filed := by
  constructor
  · intro group m
    rw [leave_nodes]
    show m ∈ Index.members (g.groups.unfileAll n.group.toList a) group ↔ _
    rw [Index.mem_members_unfileAll, h.members]
    by_cases hm : a = m
    · subst hm
      simp [hn, Option.mem_toList]
    · simp [hm, Ne.symm hm]
  · intro group m
    rw [leave_nodes]
    show m ∈ Index.members (g.referrers.unfileAll n.references.toList a) group ↔ _
    rw [Index.mem_members_unfileAll, h.referrers]
    by_cases hm : a = m
    · subst hm
      simp [hn]
    · simp [hm, Ne.symm hm]

theorem refers_of_leave (h : (g.leave a n).Refers i group) : g.Refers i group := by
  obtain ⟨m, k, hk, hi, hgroup⟩ := h
  rw [leave_nodes] at hk
  split at hk
  · cases hk
  · exact ⟨m, k, hk, hi, hgroup⟩

/-- A removed service has left its group before. -/
theorem Filed.change_removed (h : g.Filed) (hg : g.Coherent) (hn : g.nodes[a]? = some n)
    (value : Option Value) :
    Change entrant g (g.report a .removed value).1 (g.report a .removed value).2 := by
  obtain ⟨mid, hmid⟩ : ∃ mid, mid = ((g.note a n .removed).beginStopping a) := ⟨_, rfl⟩
  have hties := agree_note hn .removed
  have hnode := hg.leaving_nodes hn a
  rw [if_pos rfl, ← hmid] at hnode
  have hchange : Change entrant g mid.1 mid.2 := by
    rw [hmid]
    exact ((hties.filed h).change_beginStopping (hg.setState hn _).inboxes a).after hties
      (agree_setNode hn rfl)
  rw [report_removed hn, ← hmid, unregister_eq hnode]
  refine hchange.andThen (fun group m => ?_) (updatesTo_strikeAll a _ _)
  rw [member?_congr ((agree_strikeAll (fun _ _ => rfl) a _ _).nodes m)]
  by_cases hm : a = m
  · subst hm
    rw [member?_of_not (by simp [leave_nodes]), member?_of_not fun k hk => ?_]
    exact .inl (by rw [← Option.some.inj (hnode.symm.trans hk)]; simp)
  · exact member?_congr (by rw [leave_nodes, if_neg hm])

theorem Filed.report_removed (h : g.Filed) (hg : g.Coherent) (hn : g.nodes[a]? = some n)
    (value : Option Value) : (g.report a .removed value).1.Filed := by
  have hnode := hg.leaving_nodes hn a
  rw [if_pos rfl] at hnode
  rw [Graph.report_removed hn, unregister_eq hnode]
  refine (agree_strikeAll (fun _ _ => rfl) a _ _).filed (Filed.leave ?_ hnode)
  exact ((agree_note hn .removed).trans (agree_beginStopping _ a)).filed h

theorem refers_report_removed (hg : g.Coherent) (hn : g.nodes[a]? = some n)
    (value : Option Value) (h : (g.report a .removed value).1.Refers i group) :
    g.Refers i group := by
  have hnode := hg.leaving_nodes hn a
  rw [if_pos rfl] at hnode
  rw [Graph.report_removed hn, unregister_eq hnode] at h
  exact ((agree_note hn .removed).trans (agree_beginStopping _ a)).refers.mp
    (refers_of_leave ((agree_strikeAll (fun _ _ => rfl) a _ _).refers.mp h))

/-! ## Reports and registrations -/

/-- A report of a service that stays changes nothing about its groups. -/
theorem agree_report (hn : g.nodes[a]? = some n) {state : State} (hr : state ≠ .removed)
    (value : Option Value) : Agree Node.ties g (g.report a state value).1 := by
  rcases report_cases hn state value with ⟨_, he⟩ | ⟨v, rfl, rfl, hs⟩ | ⟨hl, _⟩ | rfl
  · rw [he]
    exact agree_setNode hn rfl
  · rw [report_started hn hs]
    exact (agree_present hn v).trans (agree_resolveAll (fun _ _ => rfl) _ _)
  · rw [report_stop hn hl hr]
    exact (agree_note hn state).trans (agree_beginStopping _ a)
  · exact absurd rfl hr

theorem Filed.change_report (h : g.Filed) (hg : g.Coherent) (hn : g.nodes[a]? = some n)
    (state : State) (value : Option Value) :
    Change entrant g (g.report a state value).1 (g.report a state value).2 := by
  rcases report_cases hn state value with ⟨_, he⟩ | ⟨v, rfl, rfl, hs⟩ | ⟨hl, hr⟩ | rfl
  · rw [he]
    exact (Change.refl entrant _).after (agree_note hn state) (agree_setNode hn rfl)
  · exact h.change_started hg.inboxes hn hs v
  · rw [report_stop hn hl hr]
    exact (((agree_note hn state).filed h).change_beginStopping (hg.setState hn _).inboxes a).after
      (agree_note hn state) (agree_setNode hn rfl)
  · exact h.change_removed hg hn value

theorem Filed.register (h : g.Filed) {r : Registration} (hr : g.nodes[r.name]? = none)
    (i : Inbox) : (g.register r i).1.Filed := by
  rw [register_fst]
  refine (agree_resolve (fun _ _ => rfl) _ _).filed ⟨fun {group m} => ?_, fun {group m} => ?_⟩
  · rw [enter_nodes]
    show m ∈ Index.members (g.groups.fileAll r.group.toList r.name) group ↔ _
    rw [Index.mem_members_fileAll, h.members]
    by_cases hm : r.name = m
    · subst hm
      simp [hr, Registration.node, Option.mem_toList, eq_comm]
    · simp [hm, Ne.symm hm]
  · rw [enter_nodes]
    show m ∈ Index.members (g.referrers.fileAll r.references.toList r.name) group ↔ _
    rw [Index.mem_members_fileAll, h.referrers]
    by_cases hm : r.name = m
    · subst hm
      simp [hr, Registration.node]
    · simp [hm, Ne.symm hm]

/-- Whoever refers to a group after a registration did so before, or is the one registered. -/
theorem refers_register {r : Registration} {j : Inbox}
    (h : (g.register r i).1.Refers j group) :
    g.Refers j group ∨ (j = i ∧ group ∈ r.references) := by
  rw [register_fst, (agree_resolve (fun _ _ => rfl) _ _).refers] at h
  obtain ⟨m, n, hn, hi, hgroup⟩ := h
  rw [enter_nodes] at hn
  split at hn
  · obtain rfl := Option.some.inj hn
    exact .inr ⟨hi.symm, hgroup⟩
  · exact .inl ⟨m, n, hn, hi, hgroup⟩

/-- A service that is registered is told who is in the groups it refers to, and no one else is
told anything. -/
theorem updatesTo_register (g : Graph) (r : Registration) (i j : Inbox) :
    updatesTo j (g.register r i).2 =
      if j = i then r.references.toList.flatMap fun group =>
        (g.exposedMembers group).map fun p => .added group p.1 p.2 else [] := by
  have hsplit : (g.register r i).2 =
      (r.references.toList.flatMap fun group =>
        (g.exposedMembers group).map fun p => GroupUpdate.added group p.1 p.2).map
          (fun u => (⟨i, .reference u⟩ : Delivery)) ++ ((g.enter r i).resolve r.name).2 := by
    simp only [List.map_flatMap, List.map_map]
    rfl
  rw [hsplit, updatesTo_append, updatesTo_map, updatesTo_resolve, List.append_nil]

theorem member?_register {r : Registration} (hr : g.nodes[r.name]? = none) (i : Inbox)
    (group m : Name) : (g.register r i).1.member? group m = g.member? group m := by
  rw [register_fst, member?_congr ((agree_resolve (fun _ _ => rfl) _ _).nodes m)]
  by_cases hm : r.name = m
  · subst hm
    rw [member?_of_not, member?_of_not (by simp [hr])]
    intro k hk
    rw [enter_nodes, if_pos rfl] at hk
    obtain rfl := Option.some.inj hk
    exact .inr (.inl rfl)
  · exact member?_congr (by rw [enter_nodes, if_neg hm])

theorem change_register {r : Registration} (hr : g.nodes[r.name]? = none) (i : Inbox) :
    Change i g (g.register r i).1 (g.register r i).2 :=
  .enters (member?_register hr i) (fun j hj => by rw [updatesTo_register, if_neg hj])
    fun group m => by
      rw [updatesTo_register, if_pos rfl]
      simp

/-- A service that is registered is told of everyone shown in a group it refers to. -/
theorem Filed.mem_updatesTo_register (h : g.Filed) (r : Registration) (i : Inbox) :
    .added group m v ∈ updatesTo i (g.register r i).2 ↔
      group ∈ r.references ∧ g.member? group m = some v := by
  simp only [updatesTo_register, if_true, List.mem_flatMap, List.mem_map,
    GroupUpdate.added.injEq, Prod.exists]
  constructor
  · rintro ⟨_, hgroup, m', v', hmv, rfl, rfl, rfl⟩
    exact ⟨by simpa using hgroup, h.mem_exposedMembers.mp hmv⟩
  · rintro ⟨hgroup, hmv⟩
    exact ⟨group, by simpa using hgroup, m, v, h.mem_exposedMembers.mpr hmv, rfl, rfl, rfl⟩

/-- What a service is told when it is registered adds up to who is shown then. -/
theorem Filed.replay_register (h : g.Filed) {r : Registration} (i : Inbox)
    (hgroup : group ∈ r.references) (m : Name) :
    (replay group (updatesTo i (g.register r i).2))[m]? = g.member? group m := by
  have hmem : ∀ {v}, .added group m v ∈ updatesTo i (g.register r i).2 ↔
      g.member? group m = some v :=
    fun {v} => (h.mem_updatesTo_register r i).trans (and_iff_right hgroup)
  cases hv : g.member? group m with
  | some v =>
      have hin := mem_replay_of_added (hmem.mpr hv) (by simp [updatesTo_register])
      obtain ⟨w, hw⟩ := Option.isSome_iff_exists.mp hin
      rw [hw, ← hv, hmem.mp (added_mem_of_replay hw)]
  | none =>
      by_contra hne
      obtain ⟨w, hw⟩ := Option.ne_none_iff_exists'.mp hne
      simp [hmem.mp (added_mem_of_replay hw)] at hv

end ServiceHost.Graph
