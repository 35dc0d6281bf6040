import Mathlib.Data.List.Induction
import ServiceHost.Proofs.Graph.Exposure
import ServiceHost.Proofs.Graph.Supply

/-! # Members of groups

A service is shown to the groups it is a member of while it is exposed. What an operation on the
graph changes about who is shown in which group, it tells everyone who refers to that group. -/

namespace ServiceHost

/-- The change of a group a message tells of, if it does. -/
def Message.update? : Message → Option GroupUpdate
  | .lifecycle _ => none
  | .reference update => some update

/-- What a change of a group makes of the members known so far. Changes of other groups are
passed over. -/
def GroupUpdate.applyTo (group : Name) (members : Std.ExtTreeMap Name Value compare) :
    GroupUpdate → Std.ExtTreeMap Name Value compare
  | .added g member value => if g = group then members.insert member value else members
  | .removed g member => if g = group then members.erase member else members

/-- The members of a group according to changes made one after the other. -/
def replay (group : Name) (updates : List GroupUpdate) : Std.ExtTreeMap Name Value compare :=
  updates.foldl (GroupUpdate.applyTo group) ∅

variable {group a m : Name} {v : Value}

theorem replay_append (group : Name) (l l' : List GroupUpdate) :
    replay group (l ++ l') = l'.foldl (GroupUpdate.applyTo group) (replay group l) :=
  List.foldl_append

theorem getElem?_added (members : Std.ExtTreeMap Name Value compare) (g x : Name) (v : Value) :
    ((GroupUpdate.added g x v).applyTo group members)[m]? =
      if group = g ∧ m = x then some v else members[m]? := by
  simp only [GroupUpdate.applyTo, eq_comm (a := group)]
  by_cases hg : g = group
  · rw [if_pos hg, Std.ExtTreeMap.getElem?_insert]
    simp only [hg, true_and, Std.LawfulEqCmp.compare_eq_iff_eq, eq_comm (a := m)]
  · rw [if_neg hg, if_neg fun h => hg h.1]

theorem getElem?_removed (members : Std.ExtTreeMap Name Value compare) (g x : Name) :
    ((GroupUpdate.removed g x).applyTo group members)[m]? =
      if group = g ∧ m = x then none else members[m]? := by
  simp only [GroupUpdate.applyTo, eq_comm (a := group)]
  by_cases hg : g = group
  · rw [if_pos hg, Std.ExtTreeMap.getElem?_erase]
    simp only [hg, true_and, Std.LawfulEqCmp.compare_eq_iff_eq, eq_comm (a := m)]
  · rw [if_neg hg, if_neg fun h => hg h.1]

/-- Only those who were added are members. -/
theorem added_mem_of_replay {l : List GroupUpdate} (h : (replay group l)[m]? = some v) :
    .added group m v ∈ l := by
  induction l using List.reverseRecOn with
  | nil => simp [replay] at h
  | append_singleton l u ih =>
      rw [replay_append, List.foldl_cons, List.foldl_nil] at h
      cases u with
      | added g x w =>
          rw [getElem?_added] at h
          split at h
          next hx =>
            obtain ⟨rfl, rfl⟩ := hx
            obtain rfl := Option.some.inj h
            simp
          next => exact List.mem_append_left _ (ih h)
      | removed g x =>
          rw [getElem?_removed] at h
          split at h
          next => cases h
          next => exact List.mem_append_left _ (ih h)

/-- Whoever was added and never removed is a member. -/
theorem mem_replay_of_added {l : List GroupUpdate} (h : .added group m v ∈ l)
    (hno : .removed group m ∉ l) : (replay group l)[m]?.isSome := by
  induction l using List.reverseRecOn with
  | nil => simp at h
  | append_singleton l u ih =>
      rw [replay_append, List.foldl_cons, List.foldl_nil]
      cases u with
      | added g x w =>
          rw [getElem?_added]
          split
          next => rfl
          next hx =>
            refine ih ((List.mem_append.mp h).resolve_right fun hu => hx ?_)
              fun hl => hno (List.mem_append_left _ hl)
            simp_all
      | removed g x =>
          rw [getElem?_removed, if_neg]
          · exact ih (by simpa using h) fun hl => hno (List.mem_append_left _ hl)
          · rintro ⟨rfl, rfl⟩
            exact hno (by simp)

/-- What ties a service to groups: where it is told, the group it is a member of, and those it
refers to. -/
def Node.ties (n : Node) : Inbox × Option Name × Names := (n.inbox, n.group, n.references)

/-- What a group shows of a service. -/
def Node.face (n : Node) : Option Name × Bool × Option Value := (n.group, n.stopping, n.value)

namespace Graph

variable {g g' : Graph} {n k : Node} {i : Inbox}

/-- The changes of groups sent to an inbox, in order. -/
def updatesTo (i : Inbox) (sent : List Delivery) : List GroupUpdate :=
  (Trial.messagesTo i sent).filterMap Message.update?

/-- The value a group shows a service with: it is installed as a member of that group, does not
stop and has a value. -/
def member? (g : Graph) (group m : Name) : Option Value :=
  g.nodes[m]?.bind fun n => if n.group = some group ∧ n.stopping = false then n.value else none

/-- The service with this inbox is installed and refers to a group. -/
def Refers (g : Graph) (i : Inbox) (group : Name) : Prop :=
  ∃ (m : Name) (n : Node), g.nodes[m]? = some n ∧ n.inbox = i ∧ group ∈ n.references

/-- Members and referrers are filed as such, and nobody else is. -/
structure Filed (g : Graph) : Prop where
  members : ∀ {group m : Name}, m ∈ g.groups.members group ↔
    ∃ n : Node, g.nodes[m]? = some n ∧ n.group = some group
  referrers : ∀ {group m : Name}, m ∈ g.referrers.members group ↔
    ∃ n : Node, g.nodes[m]? = some n ∧ group ∈ n.references

/-! ## Messages about groups -/

theorem mem_updatesTo {u : GroupUpdate} {sent : List Delivery} :
    u ∈ updatesTo i sent ↔ ⟨i, .reference u⟩ ∈ sent := by
  rw [updatesTo, List.mem_filterMap]
  constructor
  · rintro ⟨message, hmem, hu⟩
    cases message with
    | reference u' => exact Option.some.inj hu ▸ mem_messagesTo.mp hmem
    | lifecycle e => cases hu
  · exact fun h => ⟨_, mem_messagesTo.mpr h, rfl⟩

@[simp] theorem updatesTo_nil (i : Inbox) : updatesTo i [] = [] := rfl

@[simp] theorem updatesTo_append (i : Inbox) (l l' : List Delivery) :
    updatesTo i (l ++ l') = updatesTo i l ++ updatesTo i l' := by
  simp [updatesTo, Trial.messagesTo]

@[simp] theorem updatesTo_cons_lifecycle (i j : Inbox) (e : Event) (l : List Delivery) :
    updatesTo i (⟨j, .lifecycle e⟩ :: l) = updatesTo i l := by
  by_cases h : j = i
  · simp only [updatesTo, Trial.messagesTo, h, decide_true, List.filter_cons_of_pos, List.map_cons]
    rfl
  · simp [updatesTo, Trial.messagesTo, h]

theorem updatesTo_eq_nil {l : List Delivery} (h : ∀ d ∈ l, d.message.update? = none) :
    updatesTo i l = [] := by
  simp only [updatesTo, Trial.messagesTo, List.filterMap_eq_nil_iff, List.mem_map,
    List.mem_filter]
  rintro _ ⟨d, ⟨hd, _⟩, rfl⟩
  exact h d hd

/-- Changes sent to one inbox arrive there, in order. -/
theorem updatesTo_map (i j : Inbox) (l : List GroupUpdate) :
    updatesTo j (l.map fun u => ⟨i, .reference u⟩) = if j = i then l else [] := by
  by_cases h : j = i
  · subst h
    simp [updatesTo, Trial.messagesTo, List.filterMap_map, Function.comp_def, Message.update?,
      List.filter_map]
  · simp [updatesTo, Trial.messagesTo, List.filter_map, h, Function.comp_def, Ne.symm h]

@[simp] theorem updatesTo_notifyAll_lifecycle (g : Graph) (names : List Name) (e : Event)
    (i : Inbox) : updatesTo i (g.notifyAll names (.lifecycle e)) = [] := by
  apply updatesTo_eq_nil
  intro d hd
  simp only [notifyAll, List.mem_filterMap, Option.map_eq_some_iff] at hd
  obtain ⟨_, _, _, _, rfl⟩ := hd
  rfl

open Classical in
/-- A change that the services of a list are told reaches each of them once. -/
theorem updatesTo_notifyAll (hg : g.InboxesDistinct) {names : List Name} (hn : names.Nodup)
    (u : GroupUpdate) (i : Inbox) :
    updatesTo i (g.notifyAll names (.reference u)) =
      if ∃ m ∈ names, g.Hosts m i then [u] else [] := by
  induction names with
  | nil => simp [notifyAll]
  | cons m names ih =>
      obtain ⟨hm, hn⟩ := List.nodup_cons.mp hn
      have ih := ih hn
      cases hk : g.nodes[m]? with
      | none =>
          have hno : ¬g.Hosts m i := by simp [Hosts, hk]
          simpa [notifyAll, hk, hno] using ih
      | some n =>
          have hcons : g.notifyAll (m :: names) (.reference u) =
              [⟨n.inbox, .reference u⟩] ++ g.notifyAll names (.reference u) := by
            simp [notifyAll, hk]
          rw [hcons, updatesTo_append, ih]
          by_cases hi : n.inbox = i
          · -- the name found here is the only one with this inbox
            have hrest : ¬∃ m' ∈ names, g.Hosts m' i := by
              rintro ⟨m', hm', n', hn', hi'⟩
              have := hg hk hn' (hi.trans hi'.symm)
              exact hm (this ▸ hm')
            have hhere : ∃ m' ∈ m :: names, g.Hosts m' i := ⟨m, by simp, n, hk, hi⟩
            rw [if_neg hrest, if_pos hhere]
            simp [updatesTo, Trial.messagesTo, hi, Message.update?]
          · have hno : ¬g.Hosts m i := by
              rintro ⟨n', hn', hi'⟩
              simp_all
            simp [updatesTo, Trial.messagesTo, hi, hno]

theorem Filed.exists_mem_referrersOf (h : g.Filed) :
    (∃ m ∈ g.referrersOf group, g.Hosts m i) ↔ g.Refers i group := by
  constructor
  · rintro ⟨m, hm, n, hn, hi⟩
    obtain ⟨n', hn', hgroup⟩ := h.referrers.mp hm
    obtain rfl := Option.some.inj (hn.symm.trans hn')
    exact ⟨m, n, hn, hi, hgroup⟩
  · rintro ⟨m, n, hn, hi, hgroup⟩
    exact ⟨m, h.referrers.mpr ⟨n, hn, hgroup⟩, n, hn, hi⟩

open Classical in
/-- A change that the referrers of a group are told reaches each of them once. -/
theorem Filed.updatesTo_referrers (h : g.Filed) (hg : g.InboxesDistinct) (u : GroupUpdate)
    (i : Inbox) : updatesTo i (g.notifyAll (g.referrersOf group) (.reference u)) =
      if g.Refers i group then [u] else [] := by
  have hnodup : (g.referrersOf group).Nodup := g.referrers.nodup_members group
  rw [updatesTo_notifyAll hg hnodup]
  exact if_congr h.exists_mem_referrersOf rfl rfl

theorem Filed.mem_exposedMembers (h : g.Filed) :
    (m, v) ∈ g.exposedMembers group ↔ g.member? group m = some v := by
  simp only [exposedMembers, List.mem_filterMap, h.members, member?, Option.map_eq_some_iff,
    Option.bind_eq_some_iff, exposed?_eq]
  constructor
  · rintro ⟨_, ⟨n, hn, hgroup⟩, w, ⟨n', hn', hw⟩, he⟩
    cases he
    obtain rfl := Option.some.inj (hn.symm.trans hn')
    refine ⟨n, hn, ?_⟩
    cases hs : n.stopping <;> simp_all
  · rintro ⟨n, hn, hv⟩
    split at hv
    · next hgroup => exact ⟨m, ⟨n, hn, hgroup.1⟩, v, ⟨n, hn, by simp [hgroup.2, hv]⟩, rfl⟩
    · cases hv

/-! ## Graphs that agree -/

/-- Graphs agree on what is seen of each service through a view, and on what is filed about
groups. -/
structure Agree {α : Type} (view : Node → α) (g g' : Graph) : Prop where
  nodes : ∀ m : Name, g'.nodes[m]?.map view = g.nodes[m]?.map view
  groups : g'.groups = g.groups
  referrers : g'.referrers = g.referrers

section Agree

variable {α : Type} {view : Node → α} {g'' : Graph}

theorem Agree.refl (view : Node → α) (g : Graph) : Agree view g g := ⟨fun _ => rfl, rfl, rfl⟩

theorem Agree.trans (h : Agree view g g') (h' : Agree view g' g'') : Agree view g g'' :=
  ⟨fun m => (h'.nodes m).trans (h.nodes m), h'.groups.trans h.groups,
    h'.referrers.trans h.referrers⟩

/-- A service of one graph looks the same in the other. -/
theorem Agree.exists_node (h : Agree view g g') (hn : g'.nodes[m]? = some n) :
    ∃ k, g.nodes[m]? = some k ∧ view k = view n := by
  have := h.nodes m
  rw [hn] at this
  exact Option.map_eq_some_iff.mp this.symm

theorem Agree.symm (h : Agree view g g') : Agree view g' g :=
  ⟨fun m => (h.nodes m).symm, h.groups.symm, h.referrers.symm⟩

theorem agree_setNode (hn : g.nodes[a]? = some n) (hk : view k = view n) :
    Agree view g (g.setNode a k) := by
  refine ⟨fun m => ?_, rfl, rfl⟩
  rw [setNode_nodes]
  split
  · next h => simp [← h, hn, hk]
  · rfl

theorem agree_resolve (hview : ∀ (n : Node) (b : Bool), view { n with resolved := b } = view n)
    (g : Graph) (m : Name) : Agree view g (g.resolve m).1 := by
  cases hn : g.nodes[m]? with
  | none => simpa [resolve, hn] using Agree.refl view g
  | some n =>
      rw [resolve_eq g m n hn]
      split
      · exact agree_setNode hn (hview n _)
      · exact .refl view g

theorem agree_resolveAll (hview : ∀ (n : Node) (b : Bool), view { n with resolved := b } = view n)
    (g : Graph) (names : List Name) : Agree view g (g.resolveAll names).1 := by
  induction names generalizing g with
  | nil => exact .refl view g
  | cons m names ih => exact (agree_resolve hview g m).trans (ih _)

theorem agree_strikeAll
    (hview : ∀ (n : Node) (p : Option Names), view { n with pendingDependents := p } = view n)
    (a : Name) (g : Graph) (names : List Name) : Agree view g (strikeAll a g names).1 := by
  induction names generalizing g with
  | nil => exact .refl view g
  | cons m names ih =>
      have hm : Agree view g (g.strike a m).1 := by
        unfold Graph.strike
        split
        · exact .refl view g
        · next n hn =>
            split
            · exact .refl view g
            · split <;> exact agree_setNode hn (hview n _)
      exact hm.trans (ih _)

theorem agree_beginStopping (g : Graph) (a : Name) :
    Agree Node.ties g (g.beginStopping a).1 := by
  unfold beginStopping
  split
  · exact .refl _ g
  · next n hn =>
      split
      · exact .refl _ g
      · dsimp only
        split <;> exact agree_setNode hn rfl

end Agree

theorem Agree.refers (h : Agree Node.ties g g') : g'.Refers i group ↔ g.Refers i group := by
  have half : ∀ {g g' : Graph}, Agree Node.ties g g' → g'.Refers i group → g.Refers i group := by
    rintro g g' h ⟨m, n, hn, hi, hgroup⟩
    obtain ⟨k, hk, he⟩ := h.exists_node hn
    simp only [Node.ties, Prod.mk.injEq] at he
    exact ⟨m, k, hk, he.1.trans hi, he.2.2 ▸ hgroup⟩
  exact ⟨half h, half h.symm⟩

theorem Agree.filed (h : Agree Node.ties g g') (hf : g.Filed) : g'.Filed := by
  have key : ∀ (P : Inbox × Option Name × Names → Prop) (m : Name),
      (∃ n : Node, g'.nodes[m]? = some n ∧ P n.ties) ↔ ∃ n : Node, g.nodes[m]? = some n ∧ P n.ties := by
    intro P m
    constructor
    · rintro ⟨n, hn, hp⟩
      obtain ⟨k, hk, he⟩ := h.exists_node hn
      exact ⟨k, hk, he ▸ hp⟩
    · rintro ⟨n, hn, hp⟩
      obtain ⟨k, hk, he⟩ := h.symm.exists_node hn
      exact ⟨k, hk, he ▸ hp⟩
  constructor
  · intro group m
    rw [h.groups, hf.members]
    exact (key (fun t => t.2.1 = some group) m).symm
  · intro group m
    rw [h.referrers, hf.referrers]
    exact (key (fun t => group ∈ t.2.2) m).symm

theorem member?_congr (h : g'.nodes[m]?.map Node.face = g.nodes[m]?.map Node.face) :
    g'.member? group m = g.member? group m := by
  have key : ∀ o : Option Node,
      (o.bind fun n => if n.group = some group ∧ n.stopping = false then n.value else none) =
        (o.map Node.face).bind fun f => if f.1 = some group ∧ f.2.1 = false then f.2.2 else none := by
    intro o
    cases o <;> rfl
  rw [member?, member?, key, key, h]

theorem member?_of_not (hs : ∀ n, g.nodes[m]? = some n → n.stopping = true ∨ n.value = none ∨
    n.group ≠ some group) : g.member? group m = none := by
  cases hn : g.nodes[m]? with
  | none => simp [member?, hn]
  | some n =>
      rcases hs n hn with h | h | h <;> simp [member?, hn, h]

end Graph

end ServiceHost
