import Mathlib.Data.List.Nodup
import ServiceHost.Proofs.Graph.Passage
import ServiceHost.Proofs.Graph.StopProtocol

/-! # Registrations commute

A service that has just been registered exposes nothing, so nobody who is registered after it can
tell: each registration files its service and greets it as if it came alone. Hence registrations
under names of their own, whatever they have to do with each other, may come in any order. -/

namespace ServiceHost

/-- What is made of the names of a set does not depend on those it makes nothing of. -/
theorem Names.filterMap_toList_congr {α : Type} {f : Name → Option α} {names names' : Names}
    (h : ∀ x, (f x).isSome → (x ∈ names ↔ x ∈ names')) :
    names.toList.filterMap f = names'.toList.filterMap f := by
  have hmade (l : List Name) : l.filterMap f = (l.filter fun x => (f x).isSome).filterMap f := by
    rw [List.filterMap_filter]
    congr 1
    funext x
    cases f x <;> rfl
  rw [hmade, hmade names'.toList]
  congr 1
  have hperm : (names.toList.filter fun x => (f x).isSome).Perm
      (names'.toList.filter fun x => (f x).isSome) := by
    refine (List.perm_ext_iff_of_nodup (names.nodup_toList.filter _)
      (names'.nodup_toList.filter _)).mpr fun x => ?_
    simp only [List.mem_filter, Std.ExtTreeSet.mem_toList]
    exact and_congr_left fun hx => h x hx
  have hordered (names : Names) : (names.toList.filter fun x => (f x).isSome).Pairwise
      fun a b => compare a b = .lt := Std.ExtTreeSet.ordered_toList.filter _
  refine hperm.eq_of_pairwise (fun a b _ _ hab hba => ?_) (hordered names) (hordered names')
  exact absurd hba (Std.OrientedCmp.not_lt_of_lt hab)

namespace Index

variable (index : Index) (key key' name name' : Name) (keys keys' : List Name)

theorem getElem?_file (k : Name) : (index.file key name)[k]? =
    if key = k then some ((index[k]?.getD ∅).insert name) else index[k]? := by
  rw [file, Std.ExtTreeMap.getElem?_insert]
  by_cases hk : key = k
  · subst hk
    simp
  · simp [hk]

theorem file_comm :
    (index.file key name).file key' name' = (index.file key' name').file key name := by
  apply Std.ExtTreeMap.ext_getElem?
  intro k
  simp only [getElem?_file]
  by_cases hk : key = k <;> by_cases hk' : key' = k <;> simp only [hk, hk', if_true, if_false]
  rw [Option.getD_some, Option.getD_some, Option.some.injEq]
  apply Std.ExtTreeSet.ext_mem
  intro x
  simp only [Std.ExtTreeSet.mem_insert]
  exact or_left_comm

theorem fileAll_file :
    (index.file key name).fileAll keys name' = (index.fileAll keys name').file key name := by
  unfold fileAll
  induction keys generalizing index with
  | nil => rfl
  | cons k keys ih => rw [List.foldl_cons, List.foldl_cons, file_comm, ih]

theorem fileAll_comm :
    (index.fileAll keys name).fileAll keys' name' =
      (index.fileAll keys' name').fileAll keys name := by
  induction keys generalizing index with
  | nil => rfl
  | cons k keys ih =>
      show ((index.file k name).fileAll keys name).fileAll keys' name' =
        ((index.fileAll keys' name').file k name).fileAll keys name
      rw [ih, fileAll_file]

end Index

namespace Graph

variable {g g' : Graph} {r s : Registration} {i j : Inbox}

/-- Carries out registrations one after the other, each with its inbox. -/
def registerAll : Graph → List (Registration × Inbox) → Outcome
  | g, [] => (g, [])
  | g, (r, i) :: rest =>
    let (g₁, sent₁) := g.register r i
    let (g₂, sent₂) := g₁.registerAll rest
    (g₂, sent₁ ++ sent₂)

/-- Puts a service in its place, with the node it is to have. -/
def seat (g : Graph) (r : Registration) (n : Node) : Graph :=
  { nodes := g.nodes.insert r.name n
    dependents := g.dependents.fileAll r.dependencies.toList r.name
    groups := g.groups.fileAll r.group.toList r.name
    referrers := g.referrers.fileAll r.references.toList r.name }

/-- What a service is told when it is registered: who is exposed in the groups it refers to, and
its dependencies if all of them are there. -/
def greeting (g : Graph) (r : Registration) : List Message :=
  (r.references.toList.flatMap fun group =>
    (g.exposedMembers group).map fun p => .reference (.added group p.1 p.2)) ++
  (g.available? r.dependencies).toList.map fun values => .lifecycle (.dependenciesAvailable values)

/-- Graphs show the same if the same services are exposed in them, each in the same groups. -/
structure ShowsAs (g g' : Graph) : Prop where
  exposed : ∀ d : Name, g'.exposed? d = g.exposed? d
  members : ∀ group : Name, g'.exposedMembers group = g.exposedMembers group

theorem ShowsAs.refl (g : Graph) : g.ShowsAs g := ⟨fun _ => rfl, fun _ => rfl⟩

theorem ShowsAs.greeting (h : g.ShowsAs g') (r : Registration) : g'.greeting r = g.greeting r := by
  simp only [Graph.greeting, h.members, available?_congr h.exposed]

/-! ## One registration -/

theorem register_eq (hr : g.nodes[r.name]? = none) (i : Inbox) :
    g.register r i = (g.seat r (g.grant (r.node i)), (g.greeting r).map (⟨i, ·⟩)) := by
  have hnode : (g.enter r i).nodes[r.name]? = some (r.node i) := by rw [enter_nodes, if_pos rfl]
  have hexposed := exposed?_enter hr i
  have hgraph : ((g.enter r i).resolve r.name).1 = g.seat r (g.grant (r.node i)) := by
    rw [resolve_eq _ _ _ hnode, canResolve_congr hexposed, grant_congr hexposed]
    split
    · apply Graph.ext
      · apply Std.ExtTreeMap.ext_getElem?
        intro x
        rw [setNode_nodes, enter_nodes, seat, Std.ExtTreeMap.getElem?_insert]
        by_cases hx : r.name = x <;> simp [hx]
      all_goals rfl
    · next hno => rw [grant_of_not (by simpa using hno)]; rfl
  have hsent : ((g.enter r i).resolve r.name).2 = (g.available? r.dependencies).toList.map
      fun values => (⟨i, .lifecycle (.dependenciesAvailable values)⟩ : Delivery) := by
    rw [resolve_eq _ _ _ hnode, canResolve_congr hexposed, available?_congr hexposed]
    cases ha : g.available? r.dependencies <;> simp [canResolve, Registration.node, ha]
  refine Prod.ext (by rw [register_fst, hgraph]) ?_
  simp only [greeting, List.map_append, List.map_flatMap, List.map_map]
  exact congrArg _ hsent

theorem exposed?_seat (hr : g.nodes[r.name]? = none) {n : Node} (hv : n.value = none) (d : Name) :
    (g.seat r n).exposed? d = g.exposed? d := by
  simp only [exposed?_eq, seat, Std.ExtTreeMap.getElem?_insert]
  by_cases hd : r.name = d
  · subst hd
    simp [hr, hv]
  · simp [hd]

/-- Whoever exposes nothing is not seen in any group. -/
theorem exposedMembers_seat (hr : g.nodes[r.name]? = none) {n : Node} (hv : n.value = none)
    (group : Name) : (g.seat r n).exposedMembers group = g.exposedMembers group := by
  have hseen : ∀ x : Name, (g.exposed? x).isSome →
      (x ∈ (g.seat r n).groups.members group ↔ x ∈ g.groups.members group) := by
    intro x hx
    have hne : x ≠ r.name := by
      rintro rfl
      simp [exposed?, hr] at hx
    show x ∈ (g.groups.fileAll r.group.toList r.name).members group ↔ _
    rw [Index.mem_members_fileAll]
    exact or_iff_left fun h => hne h.2
  unfold exposedMembers
  simp only [exposed?_seat hr hv]
  refine Names.filterMap_toList_congr fun x hx => ?_
  rw [← Index.mem_members, ← Index.mem_members]
  exact hseen x (by simpa using hx)

/-- Nobody can tell that a service has just been registered. -/
theorem ShowsAs.seat (h : g.ShowsAs g') (hr : g'.nodes[r.name]? = none) {n : Node}
    (hv : n.value = none) : g.ShowsAs (g'.seat r n) where
  exposed := fun d => (exposed?_seat hr hv d).trans (h.exposed d)
  members := fun group => (exposedMembers_seat hr hv group).trans (h.members group)

/-! ## Registrations in a row -/

/-- Each registration of a list does what it does alone. -/
theorem registerAll_eq (h : g.ShowsAs g') {l : List (Registration × Inbox)}
    (hfree : ∀ p ∈ l, g'.nodes[p.1.name]? = none) (hnames : (l.map fun p => p.1.name).Nodup) :
    g'.registerAll l = (l.foldl (fun g' p => g'.seat p.1 (g.grant (p.1.node p.2))) g',
      l.flatMap fun p => (g.greeting p.1).map (⟨p.2, ·⟩)) := by
  induction l generalizing g' with
  | nil => rfl
  | cons p l ih =>
      obtain ⟨r, i⟩ := p
      obtain ⟨hr, hfree⟩ := List.forall_mem_cons.mp hfree
      obtain ⟨hnew, hnames⟩ := List.nodup_cons.mp hnames
      have hrest : ∀ p ∈ l, (g'.seat r (g.grant (r.node i))).nodes[p.1.name]? = none := by
        intro p hp
        have hne : r.name ≠ p.1.name := by
          intro he
          exact hnew (List.mem_map.mpr ⟨p, hp, he.symm⟩)
        rw [seat, Std.ExtTreeMap.getElem?_insert]
        simpa [hne] using hfree p hp
      rw [registerAll, register_eq hr, grant_congr h.exposed, h.greeting]
      simp only [ih (h.seat hr rfl) hrest hnames]
      rfl

/-- Services under two names may be put in their places in either order. -/
theorem seat_comm (g : Graph) (hne : r.name ≠ s.name) (n k : Node) :
    (g.seat r n).seat s k = (g.seat s k).seat r n := by
  apply Graph.ext
  · apply Std.ExtTreeMap.ext_getElem?
    intro x
    simp only [seat, Std.ExtTreeMap.getElem?_insert, Std.LawfulEqCmp.compare_eq_iff_eq]
    by_cases hr : r.name = x
    · have hs : s.name ≠ x := fun he => hne (hr.trans he.symm)
      simp [hr, hs]
    · simp [hr]
  · exact Index.fileAll_comm ..
  · exact Index.fileAll_comm ..
  · exact Index.fileAll_comm ..

/-- With an inbox for each registration, each gets there what is meant for it, and nothing goes
elsewhere. -/
theorem messagesTo_flatMap (f : Registration → List Message) {l : List (Registration × Inbox)}
    (hinboxes : (l.map Prod.snd).Nodup) :
    (∀ p ∈ l, Trial.messagesTo p.2 (l.flatMap fun p => (f p.1).map (⟨p.2, ·⟩)) = f p.1) ∧
      ∀ j ∉ l.map Prod.snd,
        Trial.messagesTo j (l.flatMap fun p => (f p.1).map (⟨p.2, ·⟩)) = [] := by
  induction l with
  | nil => simp [Trial.messagesTo]
  | cons p l ih =>
      obtain ⟨hnew, hinboxes⟩ := List.nodup_cons.mp hinboxes
      obtain ⟨hin, hout⟩ := ih hinboxes
      have hcons : ∀ j, Trial.messagesTo j ((p :: l).flatMap fun p => (f p.1).map (⟨p.2, ·⟩)) =
          (if p.2 = j then f p.1 else []) ++
            Trial.messagesTo j (l.flatMap fun p => (f p.1).map (⟨p.2, ·⟩)) := by
        intro j
        rw [List.flatMap_cons, ← Trial.messagesTo_map]
        simp [Trial.messagesTo]
      constructor
      · intro q hq
        rw [hcons]
        rcases List.mem_cons.mp hq with rfl | hq
        · rw [if_pos rfl, hout _ hnew, List.append_nil]
        · have hne : p.2 ≠ q.2 := fun he => hnew (he ▸ List.mem_map_of_mem hq)
          rw [if_neg hne, hin q hq, List.nil_append]
      · intro j hj
        rw [List.map_cons, List.mem_cons, not_or] at hj
        rw [hcons, if_neg (Ne.symm hj.1), hout j hj.2, List.nil_append]

/-- Whoever is registered in a row is told what it would be told alone; nobody else is told
anything. -/
theorem messagesTo_registerAll {l : List (Registration × Inbox)}
    (hfree : ∀ p ∈ l, g.nodes[p.1.name]? = none) (hnames : (l.map fun p => p.1.name).Nodup)
    (hinboxes : (l.map Prod.snd).Nodup) :
    (∀ p ∈ l, Trial.messagesTo p.2 (g.registerAll l).2 = g.greeting p.1) ∧
      ∀ j ∉ l.map Prod.snd, Trial.messagesTo j (g.registerAll l).2 = [] := by
  rw [registerAll_eq (.refl g) hfree hnames]
  exact messagesTo_flatMap g.greeting hinboxes

/-- Services with names of their own that are not taken, and inboxes of their own, may be
registered in any order: the graph they leave is the same, and so is what each inbox is sent. -/
theorem registerAll_perm {l l' : List (Registration × Inbox)} (hperm : l.Perm l')
    (hfree : ∀ p ∈ l, g.contains p.1.name = false) (hnames : (l.map fun p => p.1.name).Nodup)
    (hinboxes : (l.map Prod.snd).Nodup) :
    (g.registerAll l).1 = (g.registerAll l').1 ∧
      ∀ j, Trial.messagesTo j (g.registerAll l).2 = Trial.messagesTo j (g.registerAll l').2 := by
  replace hfree : ∀ p ∈ l, g.nodes[p.1.name]? = none := by
    intro p hp
    simpa only [contains_eq, Option.isSome_eq_false_iff, Option.isNone_iff_eq_none] using hfree p hp
  have hfree' : ∀ p ∈ l', g.nodes[p.1.name]? = none := fun p hp => hfree p (hperm.mem_iff.mpr hp)
  have hnames' := (hperm.map fun p => p.1.name).nodup hnames
  constructor
  · rw [registerAll_eq (.refl g) hfree hnames, registerAll_eq (.refl g) hfree' hnames']
    refine hperm.foldl_eq' (fun p hp q hq g' => ?_) g
    by_cases hpq : p = q
    · rw [hpq]
    · exact g'.seat_comm (fun he => hpq (List.inj_on_of_nodup_map hnames hp hq he)) _ _
  · intro j
    obtain ⟨hin, hout⟩ := messagesTo_registerAll hfree hnames hinboxes
    obtain ⟨hin', hout'⟩ :=
      messagesTo_registerAll hfree' hnames' ((hperm.map Prod.snd).nodup hinboxes)
    by_cases hj : j ∈ l.map Prod.snd
    · obtain ⟨p, hp, rfl⟩ := List.mem_map.mp hj
      rw [hin p hp, hin' p (hperm.mem_iff.mp hp)]
    · rw [hout j hj, hout' j fun hj' => hj ((hperm.map Prod.snd).mem_iff.mpr hj')]

/-- Two services that depend on each other, one of which refers to the group of the other and to
one that has a member already. -/
theorem registerAll_perm_mutual :
    let g := (Trial.after [.register "m" ∅ (some "g") ∅, .report "m" .started (some (.u64 7))]).graph
    let a : Registration × Inbox := (⟨"a", .ofList ["b", "m"], some "h", ∅⟩, 1)
    let b : Registration × Inbox := (⟨"b", .ofList ["a"], none, .ofList ["g", "h"]⟩, 2)
    (g.registerAll [a, b]).1 = (g.registerAll [b, a]).1 ∧
      ∀ j, Trial.messagesTo j (g.registerAll [a, b]).2 =
        Trial.messagesTo j (g.registerAll [b, a]).2 := by
  intro g a b
  exact registerAll_perm (.swap b a []) (by decide +kernel) (by decide +kernel) (by decide +kernel)

end Graph

end ServiceHost
