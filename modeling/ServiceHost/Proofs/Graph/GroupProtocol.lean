import ServiceHost.Proofs.Graph.Announcements
import ServiceHost.Proofs.Graph.StopProtocol

/-! # The group protocol

Over every sequence of steps: what a service was told of a group it refers to adds up to who is
shown in that group. Incarnations are told apart by their inboxes, as in the stop protocol. -/

namespace ServiceHost.Graph.Trial

variable {past : List TrialStep} {t : Trial} {s : TrialStep} {group a m : Name} {i : Inbox}

/-! ## One step -/

/-- A step keeps what is filed about groups, makes nobody refer to a group but whom it registers,
and tells the referrers what it changes. -/
structure GroupSpec (t : Trial) (s : TrialStep) : Prop where
  filed : (t.next s).graph.Filed
  refers : ∀ {i : Inbox} {group : Name}, (t.next s).graph.Refers i group →
    t.graph.Refers i group ∨ i = t.inboxes.length
  change : Change t.inboxes.length t.graph (t.next s).graph (t.sends s)
  quiet : ∀ i, (t.next s).inboxes.length ≤ i → updatesTo i (t.sends s) = []
  /-- Whoever is registered is told who is there. -/
  entered : ∀ {group : Name}, (t.next s).graph.Refers t.inboxes.length group → ∀ m,
    (replay group (updatesTo t.inboxes.length (t.sends s)))[m]? =
      (t.next s).graph.member? group m

theorem Sound.not_refers (ht : t.Sound) (hi : t.inboxes.length ≤ i) (group : Name) :
    ¬t.graph.Refers i group := by
  rintro ⟨m, n, hn, rfl, _⟩
  exact absurd (ht.known hn) (Nat.not_lt.mpr hi)

/-- A step that registers nobody. -/
theorem GroupSpec.of_change (ht : t.Sound) (hf : (t.next s).graph.Filed)
    (hr : ∀ {i group}, (t.next s).graph.Refers i group → t.graph.Refers i group)
    (hlen : (t.next s).inboxes.length = t.inboxes.length)
    (hchange : ∀ entrant, Change entrant t.graph (t.next s).graph (t.sends s)) :
    t.GroupSpec s where
  filed := hf
  refers := fun h => .inl (hr h)
  change := hchange _
  quiet := fun i hi => (hchange (i + 1)).quiet (Nat.ne_of_lt (Nat.lt_succ_self i))
    (ht.not_refers (hlen ▸ hi))
  entered := fun h => absurd (hr h) (ht.not_refers (Nat.le_refl _) _)

theorem GroupSpec.of_same (ht : t.Sound) (hf : t.graph.Filed) (hgraph : (t.next s).graph = t.graph)
    (hlen : (t.next s).inboxes.length = t.inboxes.length) (hsends : t.sends s = []) :
    t.GroupSpec s := by
  refine .of_change ht (hgraph ▸ hf) (fun h => hgraph ▸ h) hlen fun entrant => ?_
  rw [hgraph, hsends]
  exact .refl _ _

theorem groupSpec_register (ht : t.Sound) (hf : t.graph.Filed) (a : Name) (ds : Names)
    (group : Option Name) (refs : Names) : t.GroupSpec (.register a ds group refs) := by
  by_cases hc : t.graph.contains a = true
  · have hnext : t.next (.register a ds group refs) = t := next_register_of_taken hc
    exact .of_same ht hf (by rw [hnext]) (by rw [hnext]) (sends_register_of_taken hc)
  · let r : Registration := ⟨a, ds, group, refs⟩
    have ha : t.graph.nodes[r.name]? = none := not_contains_iff.mp hc
    have hnext : t.next (.register a ds group refs) =
        ⟨(t.graph.register r t.inboxes.length).1, t.inboxes ++ [t.nextInbox a]⟩ :=
      next_register_of_free hc
    have hsends : t.sends (.register a ds group refs) =
        (t.graph.register r t.inboxes.length).2 := sends_register_of_free hc
    refine ⟨?_, ?_, ?_, ?_, ?_⟩ <;> rw [hnext] <;> try rw [hsends]
    · exact hf.register ha _
    · exact fun h => (refers_register h).imp_right And.left
    · exact change_register ha _
    · intro i hi
      have hi : t.inboxes.length < i := by
        rwa [List.length_append, List.length_singleton, Nat.add_one_le_iff] at hi
      exact (change_register ha _).quiet (Nat.ne_of_gt hi) (ht.not_refers (Nat.le_of_lt hi))
    · intro group h m
      have hgroup := (refers_register h).resolve_left (ht.not_refers (Nat.le_refl _) group)
      exact (hf.replay_register _ hgroup.2 m).trans (member?_register ha _ group m).symm

theorem groupSpec_report (ht : t.Sound) (hf : t.graph.Filed) (a : Name) (reached : State)
    (value : Option Value) : t.GroupSpec (.report a reached value) := by
  cases hn : t.graph.nodes[a]? with
  | none =>
      exact .of_same ht hf (congrArg Prod.fst (report_of_none hn reached value)) rfl
        (congrArg Prod.snd (report_of_none hn reached value))
  | some n =>
      refine .of_change ht ?_ (fun {i group} h => ?_) rfl
        fun entrant => hf.change_report ht.coherent hn reached value
      · by_cases hremoved : reached = .removed
        · subst hremoved
          exact hf.report_removed ht.coherent hn value
        · exact (agree_report hn hremoved value).filed hf
      · by_cases hremoved : reached = .removed
        · subst hremoved
          exact refers_report_removed ht.coherent hn value h
        · exact (agree_report hn hremoved value).refers.mp h

theorem groupSpec (ht : t.Sound) (hf : t.graph.Filed) (s : TrialStep) : t.GroupSpec s := by
  cases s with
  | register a ds group refs => exact groupSpec_register ht hf a ds group refs
  | report a reached value => exact groupSpec_report ht hf a reached value
  | remove a =>
      have hties : Agree Node.ties t.graph (t.graph.requestRemoval a).1 :=
        requestRemoval_fst t.graph a ▸ agree_beginStopping t.graph a
      exact .of_change ht (hties.filed hf) (fun h => hties.refers.mp h) rfl
        fun entrant => hf.change_requestRemoval ht.coherent.inboxes a
  | contains a | state a => exact .of_same ht hf rfl rfl rfl
  | disconnect a => exact .of_same ht hf rfl (by simp [next, perform]) (by simp [sends, perform])

/-! ## Histories -/

theorem filed_after (past : List TrialStep) : (after past).graph.Filed := by
  induction past using List.reverseRecOn with
  | nil => constructor <;> simp [after, fresh, empty, Index.members]
  | append_singleton past s ih =>
      rw [after_append]
      exact (groupSpec (sound_after past) ih s).filed

/-- Whoever refers to a group has an inbox. -/
theorem refers_lt (h : (after past).graph.Refers i group) : i < (after past).inboxes.length := by
  obtain ⟨x, n, hn, rfl, _⟩ := h
  exact (sound_after past).known hn

/-- What an incarnation has been told about groups. -/
def told (past : List TrialStep) (i : Inbox) : List GroupUpdate := updatesTo i (fresh.trace past)

theorem told_append (past : List TrialStep) (s : TrialStep) (i : Inbox) :
    told (past ++ [s]) i = told past i ++ updatesTo i ((after past).sends s) := by
  rw [told, trace_append, updatesTo_append]
  rfl

/-- Nobody is told of a change before being registered. -/
theorem told_eq_nil (h : (after past).inboxes.length ≤ i) : told past i = [] := by
  induction past using List.reverseRecOn with
  | nil => rfl
  | append_singleton past s ih =>
      rw [told_append, ih (Nat.le_trans (length_after_le past [s]) h), List.nil_append]
      exact (groupSpec (sound_after past) (filed_after past) s).quiet i (after_append past s ▸ h)

/-- What a service was told of a group it refers to adds up to who is shown there. -/
theorem replay_told (hr : (after past).graph.Refers i group) (m : Name) :
    (replay group (told past i))[m]? = (after past).graph.member? group m := by
  induction past using List.reverseRecOn generalizing m with
  | nil =>
      obtain ⟨x, n, hn, _⟩ := hr
      simp [after, fresh, empty] at hn
  | append_singleton past s ih =>
      have hspec := groupSpec (sound_after past) (filed_after past) s
      rw [after_append] at hr ⊢
      rw [told_append, replay_append]
      rcases hspec.refers hr with hold | rfl
      · have hlt := refers_lt hold
        have ih := ih hold
        cases hspec.change with
        | stays hm hs => rw [hs, hm, List.foldl_nil, ih]
        | joins group' a v hm hs =>
            rw [hs, hm]
            by_cases hr' : (after past).graph.Refers i group'
            · rw [if_pos hr', List.foldl_cons, List.foldl_nil, getElem?_added, ih]
            · rw [if_neg hr', List.foldl_nil, ih, if_neg]
              exact fun hx => hr' (hx.1 ▸ hold)
        | leaves group' a ha hm hs =>
            rw [hs, hm]
            by_cases hr' : (after past).graph.Refers i group'
            · rw [if_pos hr', List.foldl_cons, List.foldl_nil, getElem?_removed, ih]
            · rw [if_neg hr', List.foldl_nil, ih, if_neg]
              exact fun hx => hr' (hx.1 ▸ hold)
        | enters hm hs hadd => rw [hs i (Nat.ne_of_lt hlt), hm, List.foldl_nil, ih]
      · -- it has just been registered
        rw [told_eq_nil (Nat.le_refl _)]
        exact hspec.entered hr m

/-- A step which tells of a departure tells of nothing else, and whoever leaves was shown. -/
theorem GroupSpec.removed_told (hspec : t.GroupSpec s) (h : .removed group m ∈ updatesTo i (t.sends s)) :
    updatesTo i (t.sends s) = [.removed group m] ∧ t.graph.Refers i group ∧
      (t.graph.member? group m).isSome := by
  cases hspec.change with
  | stays hm hs => rw [hs] at h; cases h
  | joins group' a v hm hs =>
      rw [hs] at h
      split at h <;> simp at h
  | leaves group' a ha hm hs =>
      rw [hs] at h ⊢
      split at h
      next hr =>
        obtain ⟨rfl, rfl⟩ : group = group' ∧ m = a := by simpa using h
        exact ⟨if_pos hr, hr, ha⟩
      next => cases h
  | enters hm hs hadd =>
      by_cases hi : i = t.inboxes.length
      · subst hi
        exact absurd h (hadd _ _)
      · rw [hs i hi] at h
        cases h

/-- Whoever is said to have joined a group is shown there from now on. -/
theorem Sound.member?_of_added (ht : t.Sound) (hf : t.graph.Filed) {v : Value}
    (hu : .added group m v ∈ updatesTo i (t.sends s)) :
    (t.next s).graph.member? group m = some v := by
  have hnew : i ≠ i + 1 := Nat.ne_of_lt (Nat.lt_succ_self i)
  cases s with
  | register a ds group' refs =>
      by_cases hc : t.graph.contains a = true
      · simp [sends_register_of_taken hc] at hu
      · rw [sends_register_of_free hc] at hu
        rw [next_register_of_free hc, member?_register (not_contains_iff.mp hc)]
        by_cases hi : i = t.inboxes.length
        · subst hi
          exact ((hf.mem_updatesTo_register _ _).mp hu).2
        · simp [updatesTo_register, hi] at hu
  | report a reached value =>
      cases hn : t.graph.nodes[a]? with
      | none => simp [sends, perform, report_of_none hn] at hu
      | some n => exact (hf.change_report ht.coherent hn reached value).member?_of_added hnew hu
  | remove a => exact (hf.change_requestRemoval ht.coherent.inboxes a).member?_of_added hnew hu
  | contains a | state a | disconnect a => simp [sends, perform] at hu

/-- Nobody is said to leave a group in a step that stops nobody. -/
theorem eq_added_of_unstopped (hno : ∀ a, ¬s.Stops a) {u : GroupUpdate}
    (hu : u ∈ updatesTo i (t.sends s)) : ∃ group m v, u = .added group m v := by
  cases s with
  | register a ds group refs =>
      by_cases hc : t.graph.contains a = true
      · simp [sends_register_of_taken hc] at hu
      · rw [sends_register_of_free hc, updatesTo_register] at hu
        split at hu
        · obtain ⟨group, -, hu⟩ := List.mem_flatMap.mp hu
          obtain ⟨p, -, rfl⟩ := List.mem_map.mp hu
          exact ⟨group, p.1, p.2, rfl⟩
        · cases hu
  | report a reached value =>
      cases hn : t.graph.nodes[a]? with
      | none => simp [sends, perform, report_of_none hn] at hu
      | some n =>
          change u ∈ updatesTo i (t.graph.report a reached value).2 at hu
          rcases report_cases hn reached value with ⟨_, he⟩ | ⟨v, rfl, rfl, hs⟩ | ⟨hl, _⟩ | rfl
          · simp [he] at hu
          · obtain ⟨group, rfl⟩ := eq_added_of_started hn hs hu
            exact ⟨group, a, v, rfl⟩
          · exact absurd ⟨rfl, hl⟩ (hno a)
          · exact absurd ⟨rfl, by decide⟩ (hno a)
  | remove a => exact absurd rfl (hno a)
  | contains a | state a | disconnect a => simp [sends, perform] at hu

/-- Whoever is said to leave a group is there, according to what was said before. -/
theorem mem_replay_told {before later : List GroupUpdate}
    (he : told past i = before ++ .removed group m :: later) : m ∈ replay group before := by
  induction past using List.reverseRecOn generalizing later with
  | nil => simp [told, trace] at he
  | append_singleton past s ih =>
      rw [told_append] at he
      have now {rest : List GroupUpdate} (hsaid : updatesTo i ((after past).sends s) =
          rest ++ .removed group m :: later) : m ∈ replay group (told past i) ∧ rest = [] := by
        have hleft : .removed group m ∈ updatesTo i ((after past).sends s) := by simp [hsaid]
        obtain ⟨honly, hr, hm⟩ :=
          (groupSpec (sound_after past) (filed_after past) s).removed_told hleft
        refine ⟨Std.ExtTreeMap.mem_iff_isSome_getElem?.mpr (replay_told hr m ▸ hm), ?_⟩
        cases rest with
        | nil => rfl
        | cons u rest => simp [honly] at hsaid
      rcases List.append_eq_append_iff.mp he with ⟨rest, rfl, hrest⟩ | ⟨rest, hrest, hnow⟩
      · obtain ⟨hmem, rfl⟩ := now hrest
        simpa using hmem
      · cases rest with
        | nil => simpa [hrest] using (@now [] hnow.symm).1
        | cons u rest =>
            obtain ⟨rfl, rfl⟩ := List.cons.inj hnow
            exact ih hrest

/-! ## The protocol -/

/-- What holds after steps of any kind, in any order. -/
structure GroupProtocol (past : List TrialStep) : Prop where
  /-- The changes a service was told of in a group it refers to, made in order, lead to the members
  of the group that have a value and do not stop, each with its value. -/
  members : ∀ {x : Name} {n : Node} {group : Name}, (after past).graph.nodes[x]? = some n →
    group ∈ n.references → ∀ m : Name,
    (replay group (updatesTo n.inbox (fresh.trace past)))[m]? =
      (after past).graph.nodes[m]?.bind fun k : Node =>
        if k.group = some group ∧ k.stopping = false then k.value else none
  /-- Nobody is ever told that a service left a group which it did not belong to, according to what
  was told before. -/
  removed : ∀ {i : Inbox} {before later : List GroupUpdate} {group m : Name},
    updatesTo i (fresh.trace past) = before ++ .removed group m :: later →
    m ∈ replay group before

/-- The group protocol holds over every sequence of steps. -/
theorem group_protocol (past : List TrialStep) : GroupProtocol past where
  members := fun hn hgroup m => replay_told ⟨_, _, hn, rfl, hgroup⟩ m
  removed := mem_replay_told

end ServiceHost.Graph.Trial
