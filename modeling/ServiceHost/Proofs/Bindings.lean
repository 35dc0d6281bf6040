import ServiceHost.Proofs.Declarations

/-! # Bindings

A plan is put together by bindings, made one after the other and in any order. What it comes to can
be read off them: it depends on whatever is named, each dependency has all the slots bound to it, and
each group has the roster that was bound to it last. -/

namespace ServiceHost

/-- Something that is bound to a service before it is installed. -/
inductive Binding
  | dependency (name : Name)
  | slot (binding : SlotBinding)
  | group (name : Name)
  | roster (binding : RosterBinding)

namespace Binding

def dependency? : Binding → Option Name
  | .dependency name => some name
  | _ => none

def slot? : Binding → Option SlotBinding
  | .slot binding => some binding
  | _ => none

def group? : Binding → Option Name
  | .group name => some name
  | _ => none

def roster? : Binding → Option RosterBinding
  | .roster binding => some binding
  | _ => none

/-- The dependency a binding makes, with a slot for its value or without. -/
def need? : Binding → Option Name
  | .dependency name => some name
  | .slot binding => some binding.dependency
  | _ => none

/-- The label of a slot, if it is bound to this dependency. -/
def slotOf? (dependency : Name) (b : Binding) : Option Label :=
  b.slot?.bind fun s => if s.dependency = dependency then some s.label else none

/-- The label of a roster, if it is bound to this group. -/
def rosterOf? (group : Name) (b : Binding) : Option Label :=
  b.roster?.bind fun r => if r.group = group then some r.label else none

theorem slotOf?_eq_some {b : Binding} {d : Name} {l : Label} :
    b.slotOf? d = some l ↔ ∃ s, b = .slot s ∧ s.dependency = d ∧ s.label = l := by
  cases b <;> simp [slotOf?, slot?]

theorem rosterOf?_eq_some {b : Binding} {group : Name} {l : Label} :
    b.rosterOf? group = some l ↔ ∃ r, b = .roster r ∧ r.group = group ∧ r.label = l := by
  cases b <;> simp [rosterOf?, roster?]

end Binding

namespace Plan

/-- A plan with one binding more. -/
def bind (p : Plan) : Binding → Plan
  | .dependency name => p.dependOn name
  | .slot s => p.bindSlot s.dependency s.label
  | .group name => p.join name
  | .roster r => p.bindRoster r.group r.label

/-- A plan with more bindings, made in order. -/
def bindAll (p : Plan) (bindings : List Binding) : Plan := bindings.foldl bind p

variable {p : Plan} {bindings bindings' : List Binding} {d group : Name}

/-! ## What bindings come to -/

theorem mem_dependencies_bindAll :
    d ∈ (p.bindAll bindings).dependencies ↔
      d ∈ p.dependencies ∨ ∃ b ∈ bindings, b.need? = some d := by
  induction bindings generalizing p with
  | nil => simp [bindAll]
  | cons b bindings ih =>
      refine ih.trans ?_
      rw [List.exists_mem_cons_iff, ← or_assoc]
      refine or_congr_left ?_
      cases b <;>
        simp [bind, dependOn, bindSlot, join, bindRoster, Binding.need?,
          Std.ExtTreeSet.mem_insert, or_comm]

/-- All the slots bound to a dependency are kept, in the order in which they were bound. -/
theorem slots_bindAll :
    (p.bindAll bindings).slots[d]? =
      if bindings.filterMap (Binding.slotOf? d) = [] then p.slots[d]?
      else some (p.slotsOf d ++ bindings.filterMap (Binding.slotOf? d)) := by
  induction bindings generalizing p with
  | nil => simp [bindAll]
  | cons b bindings ih =>
      refine ih.trans ?_
      cases b with
      | dependency name | group name | roster r => rfl
      | slot s =>
          simp only [bind, bindSlot, slotsOf, Std.ExtTreeMap.getElem?_insert,
            Std.LawfulEqCmp.compare_eq_iff_eq]
          by_cases h : s.dependency = d
          · simp only [h, if_true, List.filterMap_cons, Binding.slotOf?, Binding.slot?,
              Option.bind_some, Option.getD_some]
            split
            · next hnil => simp [hnil]
            · simp
          · simp [h, Binding.slotOf?, Binding.slot?]

theorem slotsOf_bindAll :
    (p.bindAll bindings).slotsOf d =
      p.slotsOf d ++ bindings.filterMap (Binding.slotOf? d) := by
  rw [slotsOf, slots_bindAll]
  split
  · next hnil => rw [hnil, List.append_nil, slotsOf]
  · rw [Option.getD_some]

theorem group_bindAll :
    (p.bindAll bindings).group = (bindings.filterMap Binding.group?).getLast?.or p.group := by
  induction bindings generalizing p with
  | nil => rfl
  | cons b bindings ih =>
      refine ih.trans ?_
      cases b with
      | dependency name | slot s | roster r => rfl
      | group name => simp [bind, join, Binding.group?, List.getLast?_cons, Option.or_some]

/-- Of the rosters bound to a group the last is left. -/
theorem rosters_bindAll :
    (p.bindAll bindings).rosters[group]? =
      (bindings.filterMap (Binding.rosterOf? group)).getLast?.or p.rosters[group]? := by
  induction bindings generalizing p with
  | nil => rfl
  | cons b bindings ih =>
      refine ih.trans ?_
      cases b with
      | dependency name | slot s | group name => rfl
      | roster r =>
          simp only [bind, bindRoster, Std.ExtTreeMap.getElem?_insert,
            Std.LawfulEqCmp.compare_eq_iff_eq]
          by_cases h : r.group = group
          · simp [h, Binding.rosterOf?, Binding.roster?, List.getLast?_cons, Option.or_some]
          · simp [h, Binding.rosterOf?, Binding.roster?]

/-- A plan refers to the groups to which it binds rosters. -/
theorem mem_references_bindAll (h : p.rosters = ∅) :
    group ∈ Names.ofList (p.bindAll bindings).rosters.keys ↔
      ∃ r, .roster r ∈ bindings ∧ r.group = group := by
  rw [Names.mem_ofList, Std.ExtTreeMap.mem_keys, Std.ExtTreeMap.mem_iff_isSome_getElem?,
    rosters_bindAll, h, Std.ExtTreeMap.getElem?_empty, Option.or_none, List.getLast?_isSome]
  constructor
  · intro hne
    obtain ⟨l, hl⟩ := List.exists_mem_of_ne_nil _ hne
    obtain ⟨_, hb, hr⟩ := List.mem_filterMap.mp hl
    obtain ⟨r, rfl, hgroup, -⟩ := Binding.rosterOf?_eq_some.mp hr
    exact ⟨r, hb, hgroup⟩
  · rintro ⟨r, hr, hgroup⟩
    have hl : r.label ∈ bindings.filterMap (Binding.rosterOf? group) :=
      List.mem_filterMap.mpr ⟨_, hr, Binding.rosterOf?_eq_some.mpr ⟨r, rfl, hgroup, rfl⟩⟩
    exact List.ne_nil_of_mem hl

@[simp] theorem bindAll_name : (p.bindAll bindings).name = p.name :=
  foldl_eq Plan.name (fun _ b => by cases b <;> rfl) _ _

@[simp] theorem bindAll_value : (p.bindAll bindings).value = p.value :=
  foldl_eq Plan.value (fun _ b => by cases b <;> rfl) _ _

@[simp] theorem bindAll_conduct : (p.bindAll bindings).conduct = p.conduct :=
  foldl_eq Plan.conduct (fun _ b => by cases b <;> rfl) _ _

theorem exists_need_iff : (∃ b ∈ bindings, b.need? = some d) ↔
    d ∈ bindings.filterMap Binding.dependency? ∨
      ∃ s ∈ bindings.filterMap Binding.slot?, s.dependency = d := by
  induction bindings with
  | nil => simp
  | cons b bindings ih =>
      rw [List.exists_mem_cons_iff, ih]
      cases b <;> simp [Binding.need?, Binding.dependency?, Binding.slot?, or_assoc, or_left_comm,
        eq_comm]

/-- Bindings of different kinds can be made in any order. -/
theorem bindAll_congr
    (hneeds : bindings.filterMap Binding.dependency? = bindings'.filterMap Binding.dependency?)
    (hslots : bindings.filterMap Binding.slot? = bindings'.filterMap Binding.slot?)
    (hgroup : (bindings.filterMap Binding.group?).getLast? =
      (bindings'.filterMap Binding.group?).getLast?)
    (hrosters : bindings.filterMap Binding.roster? = bindings'.filterMap Binding.roster?) :
    p.bindAll bindings = p.bindAll bindings' := by
  have hslot : ∀ d, bindings.filterMap (Binding.slotOf? d) =
      bindings'.filterMap (Binding.slotOf? d) := by
    intro d
    unfold Binding.slotOf?
    rw [← List.filterMap_filterMap, hslots, List.filterMap_filterMap]
  have hroster : ∀ group, bindings.filterMap (Binding.rosterOf? group) =
      bindings'.filterMap (Binding.rosterOf? group) := by
    intro group
    unfold Binding.rosterOf?
    rw [← List.filterMap_filterMap, hrosters, List.filterMap_filterMap]
  have hname : (p.bindAll bindings).name = (p.bindAll bindings').name := by simp
  have hvalue : (p.bindAll bindings).value = (p.bindAll bindings').value := by simp
  have hconduct : (p.bindAll bindings).conduct = (p.bindAll bindings').conduct := by simp
  have hdependencies : (p.bindAll bindings).dependencies = (p.bindAll bindings').dependencies := by
    refine Std.ExtTreeSet.ext_mem fun d => ?_
    rw [mem_dependencies_bindAll, mem_dependencies_bindAll, exists_need_iff, exists_need_iff, hneeds,
      hslots]
  have hkept : (p.bindAll bindings).slots = (p.bindAll bindings').slots := by
    refine Std.ExtTreeMap.ext_getElem? fun d => ?_
    rw [slots_bindAll, slots_bindAll, hslot]
  have hjoined : (p.bindAll bindings).group = (p.bindAll bindings').group := by
    rw [group_bindAll, group_bindAll, hgroup]
  have hbound : (p.bindAll bindings).rosters = (p.bindAll bindings').rosters := by
    refine Std.ExtTreeMap.ext_getElem? fun group => ?_
    rw [rosters_bindAll, rosters_bindAll, hroster]
  generalize p.bindAll bindings = q, p.bindAll bindings' = q' at *
  cases q
  cases q'
  simp_all

end Plan

/-! ## Declared services -/

namespace Declaration

/-- The bindings a declared service stands for. -/
def bindings (d : Service) (scope : Option Name) : List Binding :=
  (scope.toList ++ d.dependencies).map .dependency ++ d.slots.map .slot ++
    d.group.toList.map .group ++ d.rosters.map .roster

theorem plan_eq_bindAll (d : Service) (scope : Option Name) :
    d.plan scope = (Plan.bare d.name d.value d.conduct).bindAll (d.bindings scope) := by
  simp only [bindings, Plan.bindAll, List.map_append, List.foldl_append, List.foldl_map, plan]
  rfl

/-- The roster a declared service has for a group: the one bound to it last. -/
def rosterFor? (d : Service) (group : Name) : Option Label :=
  ((d.rosters.filter fun r => r.group = group).map RosterBinding.label).getLast?

@[simp] theorem plan_group (d : Service) (scope : Option Name) :
    (d.plan scope).group = d.group := by
  have hlast : d.group.toList.getLast? = d.group := by cases d.group <;> rfl
  simpa [plan_eq_bindAll, Plan.group_bindAll, bindings, Plan.bare, Function.comp_def,
    Binding.group?] using hlast

theorem plan_rosters (d : Service) (scope : Option Name) (group : Name) :
    (d.plan scope).rosters[group]? = d.rosterFor? group := by
  have hbound : (d.bindings scope).filterMap (Binding.rosterOf? group) =
      (d.rosters.filter fun r => r.group = group).map RosterBinding.label := by
    rw [← List.filterMap_eq_map, List.filterMap_filter]
    simp [bindings, Function.comp_def, Binding.rosterOf?, Binding.roster?]
  rw [plan_eq_bindAll, Plan.rosters_bindAll, hbound, rosterFor?]
  simp [Plan.bare]

theorem exists_of_rosterFor? {d : Service} {group : Name} {l : Label}
    (h : d.rosterFor? group = some l) : ∃ r ∈ d.rosters, r.label = l := by
  obtain ⟨r, hr, hl⟩ := List.mem_map.mp (List.mem_of_getLast? h)
  exact ⟨r, (List.mem_filter.mp hr).1, hl⟩

/-- A service declared by any bindings. -/
def ofBindings (name : Name) (value : Value) (callbacks : Callbacks Action) (forget : Bool)
    (made : List Binding) : Service :=
  { name, value, callbacks, forget
    dependencies := made.filterMap Binding.dependency?
    slots := made.filterMap Binding.slot?
    group := (made.filterMap Binding.group?).getLast?
    rosters := made.filterMap Binding.roster? }

/-- Whatever bindings are made can be declared, and in whatever order: the plan is what they come
to in that order. -/
theorem plan_ofBindings (name : Name) (value : Value) (callbacks : Callbacks Action)
    (forget : Bool) (made : List Binding) :
    let d := ofBindings name value callbacks forget made
    d.plan none = (Plan.bare name value d.conduct).bindAll made := by
  intro d
  rw [plan_eq_bindAll]
  refine Plan.bindAll_congr ?_ ?_ ?_ ?_
  · simp [d, bindings, ofBindings, Function.comp_def, Binding.dependency?]
  · simp [d, bindings, ofBindings, Function.comp_def, Binding.slot?]
  · have hlast : ∀ o : Option Name, o.toList.getLast? = o := by
      intro o
      cases o <;> rfl
    simpa [d, bindings, ofBindings, Function.comp_def, Binding.group?] using hlast _
  · simp [d, bindings, ofBindings, Function.comp_def, Binding.roster?]

end Declaration

/-- The bindings a declared composite stands for. -/
def CompositeDeclaration.bindings (c : Composite) (scope : Option Name) : List Binding :=
  (scope.toList ++ c.dependencies ++ (Names.ofList (c.services.map Declaration.name)).toList).map
    .dependency

theorem CompositeDeclaration.plan_eq_bindAll (c : Composite) (scope : Option Name) :
    c.plan scope = (Plan.bare c.name .unit (.composite
      (Names.ofList (c.services.map Declaration.name)).toList)).bindAll (c.bindings scope) := by
  simp only [bindings, Plan.bindAll, List.foldl_map, plan]
  rfl

end ServiceHost
