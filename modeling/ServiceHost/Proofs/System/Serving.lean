import ServiceHost.Proofs.Bindings
import ServiceHost.Proofs.System.Replay

/-! # Cells that are served

What was bound to a service before it was installed is served while the service is there: each slot
is given the value of its dependency, and what the container tells of a group is put on the roster
bound to the group. Of several rosters bound to one group, only the last is served. -/

namespace ServiceHost

open ServiceHost.Graph (Trial updatesTo)

/-! ## Slots -/

/-- Slots that take values hold them afterwards. -/
theorem Cells.content?_inject_of_ok {source : Name} {value : Value} {labels : List Label}
    {cells : Cells} {l : Label} (hok : (cells.inject source value labels).2 = .ok ())
    (hslot : (cells.slot? l).isSome = true) :
    (cells.inject source value labels).1.content? l =
      if l ∈ labels then some (source, value) else cells.content? l := by
  have htype := (frame_inject (P := fun _ => True) source value labels cells fun _ _ => trivial).type l
  rw [← Option.isSome_map, ← htype, Option.isSome_map, Option.isSome_iff_exists] at hslot
  obtain ⟨slot, hslot⟩ := hslot
  rcases Cells.slot?_inject hok hslot with ⟨hl, hcontent⟩ | ⟨hl, hold⟩
  · rw [if_pos hl, content?, hslot, Option.bind_some, hcontent]
  · rw [if_neg hl, content?, content?, hslot, hold]

/-- Of the values delivered for a slot the last is left in it. -/
theorem Turn.content?_inject_of_ok {plan : Plan} {values : List (Name × Value)} {cells : Cells}
    {l : Label} (hok : (Turn.inject plan cells values).2 = .ok ())
    (hslot : (cells.slot? l).isSome = true) :
    (Turn.inject plan cells values).1.content? l =
      (values.filter fun p => l ∈ plan.slotsOf p.1).getLast?.or (cells.content? l) := by
  induction values generalizing cells with
  | nil => rfl
  | cons p values ih =>
      obtain ⟨e, v⟩ := p
      rw [inject] at hok ⊢
      have hframe := Cells.frame_inject (P := fun _ => True) e v (plan.slotsOf e) cells
        fun _ _ => trivial
      have hone := @Cells.content?_inject_of_ok e v (plan.slotsOf e) cells l
      generalize cells.inject e v (plan.slotsOf e) = result at hok hframe hone ⊢
      obtain ⟨cells', outcome⟩ := result
      cases outcome with
      | error expected => cases hok
      | ok _ =>
          have hslot' : (cells'.slot? l).isSome = true := by
            rwa [← Option.isSome_map, hframe.type l, Option.isSome_map]
          refine (ih hok hslot').trans ?_
          rw [hone rfl hslot, List.filter_cons]
          by_cases hl : l ∈ plan.slotsOf e
          · simp [hl, List.getLast?_cons, Option.or_some]
          · simp [hl]

namespace System

variable {s : System} {happened : List Stimulus} {i : Nat} {c : Controller} {l : Label}
  {rest : List Message} {bindings : List Binding}

/-- A service that waits and is given its dependencies has them in its slots afterwards. -/
theorem content?_of_offer {values : List (Name × Value)} (hc : s.controllers[i]? = some c)
    (hcan : c.canTake = true) (hw : c.state = .waiting)
    (hi : c.inbox = .lifecycle (.dependenciesAvailable values) :: rest)
    (hfit : ∀ p ∈ values, ∀ l ∈ c.plan.slotsOf p.1, ∀ slot, s.world.cells.slot? l = some slot →
      slot.type = p.2.type) (hslot : (s.world.cells.slot? l).isSome = true) :
    (s.apply (.move (.take i))).world.cells.content? l =
      (values.filter fun p => l ∈ c.plan.slotsOf p.1).getLast?.or (s.world.cells.content? l) := by
  obtain ⟨cells, hh, hgrows, -⟩ := Controller.handles_take hcan i s.world
  rw [apply_take hc hcan, applyTurn_cells, hgrows.content?]
  generalize (c.take i s.world).controller.resolved = resolved at hh
  cases hh with
  | spares hs hr =>
      simp [Controller.effects, hi, hw, State.effects, transition, Event.signal] at hs
  | updates hi' => simp [hi] at hi'
  | releases hi' => simp [hi] at hi'
  | fills hi' =>
      obtain ⟨he, -⟩ := List.cons.inj (hi.symm.trans hi')
      cases he
      exact Turn.content?_inject_of_ok (Turn.inject_ok hfit) hslot

/-! ## Bindings over a run -/

/-- What becomes of the bindings of a service over a run. -/
structure Serves (happened : List Stimulus) (i : Nat) (c : Controller) (bindings : List Binding) :
    Prop where
  /-- The service is registered with what it was bound to, and with nothing else. -/
  dependencies : ∀ {m : Name} {n : Node},
    (initial.run happened).container.graph.nodes[m]? = some n → n.inbox = i →
    ∀ d, d ∈ n.dependencies ↔ ∃ b ∈ bindings, b.need? = some d
  references : ∀ {m : Name} {n : Node},
    (initial.run happened).container.graph.nodes[m]? = some n → n.inbox = i →
    ∀ group, group ∈ n.references ↔ ∃ r, .roster r ∈ bindings ∧ r.group = group
  /-- Whoever is given its dependencies has them in all its slots, if the types agree. -/
  filled : ∀ {values : List (Name × Value)} {rest : List Message}, c.canTake = true →
    c.state = .waiting → c.inbox = .lifecycle (.dependenciesAvailable values) :: rest →
    (∀ p ∈ values, ∀ b, .slot b ∈ bindings → b.dependency = p.1 →
      ∀ slot, (initial.run happened).world.cells.slot? b.label = some slot →
        slot.type = p.2.type) →
    ∀ b, .slot b ∈ bindings →
      ((initial.run happened).world.cells.slot? b.label).isSome = true →
      (∃ v, (b.dependency, v) ∈ values) ∧
        ((initial.run happened).apply (.move (.take i))).world.cells.content? b.label =
          (values.filter fun p => b.label ∈ bindings.filterMap (Binding.slotOf? p.1)).getLast?
  /-- Whatever the service was told of groups it has taken in, or has before it. -/
  told : c.ended = false → updatesTo i (Trial.fresh.trace (initial.history happened)) =
    (initial.intake happened i).filterMap Message.update? ++ c.inbox.filterMap Message.update?
  /-- For as long as it is not removed, a roster of its own replays what it has taken in of the
  groups to which the roster was bound last. -/
  shown : ∀ {before later : List Stimulus} {l : Label} {roster : Roster},
    happened = before ++ later →
    (initial.run before).world.cells.roster? l = some roster → c.state ≠ .removed →
    (∀ {j : Nat} {b : Controller}, (initial.run happened).controllers[j]? = some b →
      l ∈ b.plan.rosters.values → j = i) →
    (initial.run happened).world.cells.roster? l = some (roster.replay
      ((((initial.run before).intake later i).filterMap Message.update?).filter fun u =>
        (bindings.filterMap (Binding.rosterOf? u.group)).getLast? = some l))

variable {name : Name} {value : Value} {conduct : Conduct}

theorem slotsOf_of_bound (hplan : c.plan = (Plan.bare name value conduct).bindAll bindings)
    (d : Name) : c.plan.slotsOf d = bindings.filterMap (Binding.slotOf? d) := by
  rw [hplan, Plan.slotsOf_bindAll, Plan.slotsOf, Plan.bare, Std.ExtTreeMap.getElem?_empty,
    Option.getD_none, List.nil_append]

theorem rosters_of_bound (hplan : c.plan = (Plan.bare name value conduct).bindAll bindings)
    (group : Name) :
    c.plan.rosters[group]? = (bindings.filterMap (Binding.rosterOf? group)).getLast? := by
  rw [hplan, Plan.rosters_bindAll, Plan.bare, Std.ExtTreeMap.getElem?_empty, Option.or_none]

/-- Whoever is registered is so with the dependencies and the groups of its plan. -/
theorem registered_run (hc : (initial.run happened).controllers[i]? = some c) {m : Name} {n : Node}
    (hn : (initial.run happened).container.graph.nodes[m]? = some n) (hi : n.inbox = i) :
    n.dependencies = c.plan.dependencies ∧ n.references = Names.ofList c.plan.rosters.keys := by
  subst hi
  obtain ⟨c', hc', hd, -, hr⟩ := enrolled_run happened hn
  obtain rfl := Option.some.inj (hc.symm.trans hc')
  exact ⟨hd, hr⟩

/-- Each slot bound to a service that waits is given a value of its dependency, and of those for
that slot the last. -/
theorem filled_of_bound (hc : (initial.run happened).controllers[i]? = some c)
    (hplan : c.plan = (Plan.bare name value conduct).bindAll bindings) (hcan : c.canTake = true)
    (hw : c.state = .waiting) {values : List (Name × Value)}
    (hi : c.inbox = .lifecycle (.dependenciesAvailable values) :: rest)
    (hfit : ∀ p ∈ values, ∀ b, .slot b ∈ bindings → b.dependency = p.1 →
      ∀ slot, (initial.run happened).world.cells.slot? b.label = some slot →
        slot.type = p.2.type) {b : SlotBinding} (hb : .slot b ∈ bindings)
    (hslot : ((initial.run happened).world.cells.slot? b.label).isSome = true) :
    (∃ v, (b.dependency, v) ∈ values) ∧
      ((initial.run happened).apply (.move (.take i))).world.cells.content? b.label =
        (values.filter fun p => b.label ∈ bindings.filterMap (Binding.slotOf? p.1)).getLast? := by
  have hcovered := covered_run happened hc (Controller.ended_of_canTake hcan)
    (hi ▸ List.mem_cons_self)
  obtain ⟨v, hv⟩ : ∃ v, (b.dependency, v) ∈ values := by
    have hneeded : b.dependency ∈ c.plan.dependencies := by
      rw [hplan, Plan.mem_dependencies_bindAll]
      exact .inr ⟨_, hb, rfl⟩
    rw [← Std.ExtTreeSet.mem_toList, ← hcovered] at hneeded
    simpa using hneeded
  have hfits : ∀ p ∈ values, ∀ l ∈ c.plan.slotsOf p.1, ∀ slot,
      (initial.run happened).world.cells.slot? l = some slot → slot.type = p.2.type := by
    intro p hp l hl
    rw [slotsOf_of_bound hplan] at hl
    obtain ⟨_, hs, hof⟩ := List.mem_filterMap.mp hl
    obtain ⟨s, rfl, hd, rfl⟩ := Binding.slotOf?_eq_some.mp hof
    exact hfit p hp s hs hd
  refine ⟨⟨v, hv⟩, ?_⟩
  rw [content?_of_offer hc hcan hw hi hfits hslot]
  simp only [slotsOf_of_bound hplan]
  have hbound : b.label ∈ bindings.filterMap (Binding.slotOf? b.dependency) :=
    List.mem_filterMap.mpr ⟨_, hb, Binding.slotOf?_eq_some.mpr ⟨b, rfl, rfl, rfl⟩⟩
  have hgiven : (b.dependency, v) ∈
      values.filter fun p => b.label ∈ bindings.filterMap (Binding.slotOf? p.1) :=
    List.mem_filter.mpr ⟨hv, by simpa using hbound⟩
  exact Option.or_of_isSome (List.getLast?_isSome.mpr (List.ne_nil_of_mem hgiven))

/-- Whatever is bound to a service, and in whatever order, is served so in every run. -/
theorem serves_run {name : Name} {value : Value} {conduct : Conduct}
    (hc : (initial.run happened).controllers[i]? = some c)
    (hplan : c.plan = (Plan.bare name value conduct).bindAll bindings) :
    Serves happened i c bindings := by
  refine ⟨fun hn hi d => ?_, fun hn hi group => ?_,
    fun hcan hw hi hfit b hb hslot => filled_of_bound hc hplan hcan hw hi hfit hb hslot, ?_, ?_⟩
  · rw [(registered_run hc hn hi).1, hplan, Plan.mem_dependencies_bindAll]
    simp [Plan.bare]
  · rw [(registered_run hc hn hi).2, hplan, Plan.mem_references_bindAll rfl]
  · intro hlive
    rw [updates_run happened fun hc' => ?_, inboxOf_eq hc]
    obtain rfl := Option.some.inj (hc.symm.trans hc')
    exact hlive
  · intro before later l roster hsplit hroster hkeep halone
    subst hsplit
    rw [run_append] at hc halone ⊢
    have hshown := roster_run (initial.run before) later (Cells.getElem?_of_roster? hroster)
      (fun hc' => by
        obtain rfl := Option.some.inj (hc.symm.trans hc')
        exact ⟨rfl, hkeep⟩) halone
    rw [Cells.roster?_of_getElem? hshown]
    simp only [Plan.changes, rosters_of_bound hplan]

/-- Bindings of all kinds, one among the others. -/
def readerBindings : List Binding :=
  [.slot ⟨"base", .u64, "first"⟩, .roster ⟨"group", .u64, "l", false⟩, .dependency "base",
    .slot ⟨"base", .u64, "second"⟩, .group "readers"]

/-- A service is installed while a member of the group is there, and has taken in what the container
told it of the group. -/
def readerInstalled (bindings : List Binding) : List Stimulus :=
  [.request (.request 0) .start,
    .request (.request 1)
      (.install { plainService "base" [] with value := .u64 7, group := some "group" })] ++
  turns 4 1 ++
  [.request (.request 2) (.install (.ofBindings "reader" .unit .plain false bindings)),
    .move .receive, .move (.take 1)]

theorem serves_readerInstalled :
    ∃ c, (initial.run (readerInstalled readerBindings)).controllers[1]? = some c ∧
      c.plan = (Plan.bare "reader" .unit .plain).bindAll readerBindings ∧
      Serves (readerInstalled readerBindings) 1 c readerBindings ∧
      ∀ b, .slot b ∈ readerBindings → ((initial.run (readerInstalled readerBindings)).apply
        (.move (.take 1))).world.cells.content? b.label = some ("base", .u64 7) := by
  have hreader : (initial.run (readerInstalled readerBindings)).controllers[1]?.map
      (fun c => (c.plan, c.inbox, c.canTake, c.state)) =
        some ((Declaration.ofBindings "reader" .unit .plain false readerBindings).plan none,
          [.lifecycle (.dependenciesAvailable [("base", .u64 7)])], true, .waiting) := rfl
  obtain ⟨c, hc, he⟩ := Option.map_eq_some_iff.mp hreader
  obtain ⟨hplan, hi, hcan, hw⟩ : _ ∧ _ ∧ _ ∧ _ := by simpa only [Prod.mk.injEq] using he
  rw [Declaration.plan_ofBindings] at hplan
  have hslots : ∀ b, .slot b ∈ readerBindings →
      b.dependency = "base" ∧ b.label ∈ ["first", "second"] := by simp [readerBindings]
  have hcells : ∀ l ∈ ["first", "second"],
      ((initial.run (readerInstalled readerBindings)).world.cells.slot? l).map Slot.type =
        some .u64 := by decide +kernel
  have hserves := serves_run hc hplan
  refine ⟨c, hc, hplan, hserves, fun b hb => ?_⟩
  obtain ⟨hbase, hlabel⟩ := hslots b hb
  have hfilled := hserves.filled hcan hw hi (fun p hp b hb _ slot hslot => by
    have htype := hcells b.label (hslots b hb).2
    rw [hslot, Option.map_some, Option.some.injEq] at htype
    rw [List.mem_singleton.mp hp, htype]
    rfl) b hb (by rw [← Option.isSome_map, hcells b.label hlabel, Option.isSome_some])
  have hbound : b.label ∈ readerBindings.filterMap (Binding.slotOf? "base") :=
    List.mem_filterMap.mpr ⟨_, hb, Binding.slotOf?_eq_some.mpr ⟨b, rfl, hbase, rfl⟩⟩
  rw [hfilled.2, List.filter_cons_of_pos (by simpa using hbound), List.filter_nil,
    List.getLast?_singleton]

/-- Two rosters bound to one group. -/
def reboundBindings : List Binding :=
  [.roster ⟨"group", .u64, "l", false⟩, .roster ⟨"group", .u64, "m", false⟩]

/-- Not every roster is served: a roster bound to a group goes without once another is bound to the
same group. -/
theorem not_shown_of_rebound : ¬∀ (happened before later : List Stimulus) (i : Nat) (c : Controller)
    (name : Name) (value : Value) (conduct : Conduct) (bindings : List Binding) (l : Label)
    (roster : Roster),
    (∀ x ∈ happened, x ≠ .cancel) → (initial.run happened).controllers[i]? = some c →
    c.plan = (Plan.bare name value conduct).bindAll bindings →
    happened = before ++ later → (initial.run before).world.cells.roster? l = some roster →
    c.state ≠ .removed →
    (∀ {j : Nat} {b : Controller}, (initial.run happened).controllers[j]? = some b →
      l ∈ b.plan.rosters.values → j = i) →
    (initial.run happened).world.cells.roster? l = some (roster.replay
      ((((initial.run before).intake later i).filterMap Message.update?).filter fun u =>
        l ∈ bindings.filterMap (Binding.rosterOf? u.group))) := by
  intro h
  have hreader : (initial.run (readerInstalled reboundBindings)).controllers[1]?.map
      (fun c => (c.plan, c.state)) =
        some ((Declaration.ofBindings "reader" .unit .plain false reboundBindings).plan none, .waiting) :=
    rfl
  obtain ⟨c, hc, he⟩ := Option.map_eq_some_iff.mp hreader
  obtain ⟨hplan, hw⟩ := Prod.mk.inj he
  rw [Declaration.plan_ofBindings] at hplan
  have halone : ∀ b ∈ (initial.run (readerInstalled reboundBindings)).controllers,
      "l" ∉ b.plan.rosters.values := by decide +kernel
  have hx : ∀ x ∈ readerInstalled reboundBindings, x ≠ .cancel := by
    simp only [readerInstalled, List.forall_mem_append]
    exact ⟨⟨by simp, not_cancel_turns 4 1⟩, by simp⟩
  have hshown := h (readerInstalled reboundBindings) ((readerInstalled reboundBindings).take 11)
    ((readerInstalled reboundBindings).drop 11) 1 c "reader" .unit .plain reboundBindings "l"
    (.empty .u64 false) hx hc hplan (List.take_append_drop 11 _).symm rfl (by simp [hw])
    fun hb hl => absurd hl (halone _ (List.mem_of_getElem? hb))
  have htaken : (initial.run ((readerInstalled reboundBindings).take 11)).intake
      ((readerInstalled reboundBindings).drop 11) 1 = [.reference (.added "group" "base" (.u64 7))] := rfl
  have hempty : ((initial.run (readerInstalled reboundBindings)).world.cells.roster? "l").map
      (·.members.toList) = some [] := by decide +kernel
  rw [hshown, htaken] at hempty
  revert hempty
  decide +kernel

end System

end ServiceHost
