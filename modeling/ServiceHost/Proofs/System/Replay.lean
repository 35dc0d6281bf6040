import ServiceHost.Proofs.SharedRosters
import ServiceHost.Proofs.System.Intake
import ServiceHost.Proofs.System.Rosters

/-! # Rosters replay what is taken in

A roster that one service alone binds shows, for as long as the service is not removed, what it
showed before with the changes put on it which the service has taken in since: those of the groups
for which the service has this roster. -/

namespace ServiceHost

/-- The group a change is about. -/
def GroupUpdate.group : GroupUpdate → Name
  | .added group _ _ => group
  | .removed group _ => group

namespace Roster

/-- A roster after a change. Who has a value of another type is not put on it. -/
def after (roster : Roster) : GroupUpdate → Roster
  | .added _ member value =>
    if value.type = roster.type then { roster with members := roster.members.insert member value }
    else roster
  | .removed _ member => { roster with members := roster.members.erase member }

/-- A roster after changes, made in order. -/
def replay (roster : Roster) (changes : List GroupUpdate) : Roster := changes.foldl after roster

theorem replay_append (roster : Roster) (changes later : List GroupUpdate) :
    roster.replay (changes ++ later) = (roster.replay changes).replay later :=
  List.foldl_append

end Roster

/-- The changes among messages that go to a roster: those of the groups a plan has it for. -/
def Plan.changes (p : Plan) (l : Label) (messages : List Message) : List GroupUpdate :=
  (messages.filterMap Message.update?).filter fun u => p.rosters[u.group]? = some l

theorem Plan.changes_append (p : Plan) (l : Label) (messages later : List Message) :
    p.changes l (messages ++ later) = p.changes l messages ++ p.changes l later := by
  rw [changes, List.filterMap_append, List.filter_append, changes, changes]

/-- Nothing goes to a roster that a plan does not have. -/
theorem Plan.changes_eq_nil {p : Plan} {l : Label} (hl : l ∉ p.rosters.values)
    (messages : List Message) : p.changes l messages = [] :=
  List.filter_eq_nil_iff.mpr fun _ _ h => hl (Plan.mem_rosters.mpr ⟨_, of_decide_eq_true h⟩)

theorem Plan.changes_reference (p : Plan) (l : Label) (u : GroupUpdate) :
    p.changes l [.reference u] = if p.rosters[u.group]? = some l then [u] else [] := by
  simp [changes, Message.update?, List.filter_cons]

theorem Plan.changes_lifecycle (p : Plan) (l : Label) (e : Event) :
    p.changes l [.lifecycle e] = [] := rfl

/-! ## Cells that are no slots -/

namespace Cells

variable {cells cells' : Cells} {l x : Label} {roster : Roster}

theorem roster?_of_getElem? (hr : cells[l]? = some (.roster roster)) :
    cells.roster? l = some roster := by
  rw [roster?, hr]

theorem getElem?_of_roster? (hr : cells.roster? l = some roster) :
    cells[l]? = some (.roster roster) := by
  unfold roster? at hr
  split at hr
  · next h => rw [h, Option.some.inj hr]
  · cases hr

theorem Grows.kept (h : Grows cells cells') (hr : cells[l]? = some (.roster roster)) :
    cells'[l]? = some (.roster roster) := by
  rcases h l with he | ⟨hnone, _⟩
  · rw [he, hr]
  · simp [hr] at hnone

/-- What is put into a slot is not put on a roster. -/
theorem kept_insert_slot {slot : Slot} (slot' : Slot) (hslot : cells.slot? x = some slot)
    (hr : cells[l]? = some (.roster roster)) :
    (cells.insert x (.slot slot') : Cells)[l]? = some (.roster roster) := by
  have hne : x ≠ l := by
    rintro rfl
    simp [slot?, hr] at hslot
  simpa [Std.ExtTreeMap.getElem?_insert, hne] using hr

theorem kept_inject (source : Name) (value : Value) (labels : List Label)
    (hr : cells[l]? = some (.roster roster)) :
    (cells.inject source value labels).1[l]? = some (.roster roster) := by
  induction labels generalizing cells with
  | nil => exact hr
  | cons x rest ih =>
      rw [inject]
      split
      · exact ih hr
      · next slot hslot =>
          split
          · exact ih (kept_insert_slot _ hslot hr)
          · exact hr

theorem kept_clearSlots (labels : List Label) (hr : cells[l]? = some (.roster roster)) :
    (labels.foldl clearSlot cells)[l]? = some (.roster roster) := by
  induction labels generalizing cells with
  | nil => exact hr
  | cons x rest ih =>
      refine ih ?_
      unfold clearSlot
      split
      · exact hr
      · next slot hslot => exact kept_insert_slot _ hslot hr

theorem kept_clearRosters {labels : List Label} (hl : l ∉ labels)
    (hr : cells[l]? = some (.roster roster)) :
    (labels.foldl clearRoster cells)[l]? = some (.roster roster) := by
  induction labels generalizing cells with
  | nil => exact hr
  | cons x rest ih =>
      rw [List.mem_cons, not_or] at hl
      refine ih hl.2 ?_
      unfold clearRoster
      split
      · exact hr
      · simpa [Std.ExtTreeMap.getElem?_insert, Ne.symm hl.1] using hr

end Cells

theorem Turn.kept_inject {plan : Plan} {values : List (Name × Value)} {cells : Cells} {l : Label}
    {roster : Roster} (hr : cells[l]? = some (.roster roster)) :
    (Turn.inject plan cells values).1[l]? = some (.roster roster) := by
  induction values generalizing cells with
  | nil => exact hr
  | cons p values ih =>
      obtain ⟨e, v⟩ := p
      have hone := Cells.kept_inject e v (plan.slotsOf e) hr
      rw [inject]
      generalize cells.inject e v (plan.slotsOf e) = result at hone
      obtain ⟨cells', outcome⟩ := result
      cases outcome with
      | error expected => exact hone
      | ok _ => exact ih hone

/-! ## Changes of groups -/

namespace World

variable {w : World} {label l group member : Name} {value : Value} {roster : Roster}

theorem roster_insert (hr : w.cells[l]? = some (.roster roster)) (roster' : Roster)
    (calls : List HandlerCall) :
    ({ w with cells := w.cells.insert label (.roster roster') }.recordCalls label calls).cells[l]? =
      some (.roster (if label = l then roster' else roster)) := by
  rw [recordCalls_cells]
  simp only [Std.ExtTreeMap.getElem?_insert, Std.LawfulEqCmp.compare_eq_iff_eq]
  split <;> simp_all

theorem roster_addMember (hr : w.cells[l]? = some (.roster roster)) :
    (w.addMember label group member value).cells[l]? =
      some (.roster (if label = l then roster.after (.added group member value) else roster)) := by
  unfold addMember
  split
  · next hnone =>
      have hne : label ≠ l := by
        rintro rfl
        simp [Cells.roster?, hr] at hnone
      rw [if_neg hne, hr]
  · next bound hbound =>
      have hsame : label = l → bound = roster := by
        rintro rfl
        exact Option.some.inj (hbound.symm.trans (Cells.roster?_of_getElem? hr))
      by_cases htype : value.type = bound.type
      · simp only [Roster.add, typeOf_value, if_pos htype]
        rw [roster_insert hr]
        split
        · next hl =>
            obtain rfl := hsame hl
            rw [Roster.after, if_pos htype]
        · rfl
      · simp only [Roster.add, typeOf_value, if_neg htype]
        refine hr.trans ?_
        split
        · next hl =>
            obtain rfl := hsame hl
            rw [Roster.after, if_neg htype]
        · rfl

theorem roster_removeMember (hr : w.cells[l]? = some (.roster roster)) :
    (w.removeMember label member).cells[l]? =
      some (.roster (if label = l then roster.after (.removed group member) else roster)) := by
  unfold removeMember
  split
  · next hnone =>
      have hne : label ≠ l := by
        rintro rfl
        simp [Cells.roster?, hr] at hnone
      rw [if_neg hne, hr]
  · next bound hbound =>
      dsimp only
      rw [roster_insert hr]
      split
      · next hl =>
          subst hl
          obtain rfl := Option.some.inj (hbound.symm.trans (Cells.roster?_of_getElem? hr))
          rw [Roster.remove_fst, Roster.after]
      · rfl

end World

/-- A change goes to the roster bound to its group, and to no other. -/
theorem Turn.roster_onUpdate (t : Turn) (u : GroupUpdate) {l : Label} {roster : Roster}
    (hr : t.world.cells[l]? = some (.roster roster)) :
    (t.onUpdate u).world.cells[l]? = some (.roster
      (if t.controller.plan.rosters[u.group]? = some l then roster.after u else roster)) := by
  cases u with
  | added group member value =>
      simp only [onUpdate, GroupUpdate.group]
      split
      · next hnone => simpa [hnone] using hr
      · next label hlabel => simpa [hlabel] using World.roster_addMember hr
  | removed group member =>
      simp only [onUpdate, GroupUpdate.group]
      split
      · next hnone => simpa [hnone] using hr
      · next label hlabel => simpa [hlabel] using World.roster_removeMember hr

/-- A roster replays what a controller takes in, unless the controller is removed by that and its
plan has the roster. -/
theorem Controller.roster_take {c : Controller} (hcan : c.canTake = true) (id : Nat) {w : World}
    {message : Message} {rest : List Message} (hi : c.inbox = message :: rest) {l : Label}
    {roster : Roster} (hkeep : l ∈ c.plan.rosters.values → (c.take id w).controller.state ≠ .removed)
    (hr : w.cells[l]? = some (.roster roster)) :
    (c.take id w).world.cells[l]? =
      some (.roster (roster.replay (c.plan.changes l [message]))) := by
  cases message with
  | reference u =>
      have htake : c.take id w = (Turn.begin w { c with inbox := rest }).onUpdate u := by
        simp only [take, hi]
      rw [htake, Turn.roster_onUpdate _ u hr, Plan.changes_reference]
      by_cases hl : c.plan.rosters[u.group]? = some l
      · simp [Turn.begin, Roster.replay, hl]
      · simp [Turn.begin, Roster.replay, hl]
  | lifecycle e =>
      rw [Plan.changes_lifecycle]
      obtain ⟨cells, hh, hgrows, -⟩ := Controller.handles_take hcan id w
      refine hgrows.kept ?_
      have hadv := System.advances_take hcan id 0 w
      rw [Turn.final_state] at hadv
      generalize (c.take id w).controller.resolved = resolved at hh
      cases hh with
      | spares hs _ => exact hr
      | updates hi' => simp [hi] at hi'
      | fills hi' hw => exact Turn.kept_inject hr
      | releases hi' hs =>
          have hremoved : (c.take id w).controller.state = .removed := hadv.of_release (by
            simp [Controller.effects, hi', hs, State.effects, transition, Event.signal])
          have hl : l ∉ c.plan.rosters.values := fun hl => hkeep hl hremoved
          exact Cells.kept_clearRosters hl (Cells.kept_clearSlots _ hr)

namespace System

variable {s s' : System} {x : Stimulus} {i : Nat} {c c' : Controller} {l : Label} {roster : Roster}

/-! ## Whole runs -/

/-- Unless a controller takes a message, cells come into being at most. -/
theorem grows_apply (s : System) (hx : ∀ id, x ≠ .move (.take id)) :
    s.world.cells.Grows (s.apply x).world.cells := by
  have hs := happens_apply s x
  generalize happly : s.apply x = s' at hs
  cases hs with
  | step h =>
      rcases h.grows happly with ⟨hgrows, -⟩ | ⟨id, _, htake, -⟩
      · exact hgrows
      · exact absurd htake (hx id)
  | obeyed h =>
      cases h with
      | told => exact .of_eq (by rw [cancel_world])
      | forced => exact .of_eq (shutDown_cells s)
      | ended id c => exact .of_eq (endController_cells _ id c)
      | calledOff id t =>
          refine .of_eq ?_
          unfold callOffTask
          split
          · rfl
          · rw [noticeEnd_world]
            rfl

/-- What a step makes of a roster: nobody takes anything in and it is left alone, or it replays what
somebody takes in who is not removed by that, or does not bind the roster. -/
inductive Replays (s : System) (x : Stimulus) (l : Label) (roster : Roster) : Prop
  | rests (hx : ∀ i, s.taken? x i = none)
    (h : (s.apply x).world.cells[l]? = some (.roster roster))
  | takes (j : Nat) (b : Controller) (message : Message) (hb : s.controllers[j]? = some b)
    (hm : s.taken? x j = some message) (hx : ∀ i, i ≠ j → s.taken? x i = none)
    (h : (l ∈ b.plan.rosters.values → ∀ c', (s.apply x).controllers[j]? = some c' →
      c'.state ≠ .removed) → (s.apply x).world.cells[l]? =
        some (.roster (roster.replay (b.plan.changes l [message]))))

theorem replays_apply (hr : s.world.cells[l]? = some (.roster roster)) (x : Stimulus) :
    s.Replays x l roster := by
  by_cases hx : ∃ j, x = .move (.take j) ∧ s.canMove (.take j) = true
  · obtain ⟨j, rfl, hmove⟩ := hx
    obtain ⟨b, hb, hcan⟩ := (Option.any_eq_true _ _).mp hmove
    obtain ⟨message, rest, hi⟩ : ∃ message rest, b.inbox = message :: rest := by
      cases hi : b.inbox with
      | nil => simp [Controller.canTake, hi] at hcan
      | cons message rest => exact ⟨message, rest, rfl⟩
    have happly := apply_take hb hcan
    have hlt := (List.getElem?_eq_some_iff.mp hb).1
    have hafter : (s.apply (.move (.take j))).controllers[j]? =
        some ((b.take j s.world).final s.tasks.length) := by
      rw [happly, (applies_applyTurn hlt).controllers, List.getElem?_set_self hlt]
    refine .takes j b message hb (taken?_take hb hcan hi)
      (fun i hi => taken?_of_ne (by simp [hi.symm])) fun hkeep => ?_
    rw [happly, applyTurn_cells]
    refine Controller.roster_take hcan j hi (fun hl => ?_) hr
    rw [← Turn.final_state _ s.tasks.length]
    exact hkeep hl _ hafter
  · refine .rests (fun i => ?_) ?_
    · by_cases htake : x = .move (.take i)
      · exact taken?_of_idle (by simpa using fun h => hx ⟨i, htake, h⟩)
      · exact taken?_of_ne htake
    · by_cases htake : ∃ j, x = .move (.take j)
      · obtain ⟨j, rfl⟩ := htake
        have hidle : s.apply (.move (.take j)) = s := if_neg fun h => hx ⟨j, rfl, h⟩
        rw [hidle]
        exact hr
      · exact (grows_apply s fun j h => htake ⟨j, h⟩).kept hr

/-- In a step a roster is left alone, or replays what the service takes in that alone binds it. -/
theorem roster_apply {p : Plan} (hr : s.world.cells[l]? = some (.roster roster))
    (halone : ∀ {j : Nat} {b : Controller}, s.controllers[j]? = some b →
      l ∈ b.plan.rosters.values → j = i)
    (hplan : ∀ {c : Controller}, s.controllers[i]? = some c → c.plan = p)
    (hkeep : ∀ {c' : Controller}, (s.apply x).controllers[i]? = some c' → c'.state ≠ .removed) :
    (s.apply x).world.cells[l]? =
      some (.roster (roster.replay (p.changes l (s.taken? x i).toList))) := by
  cases replays_apply hr x with
  | rests hx h =>
      rw [hx i]
      exact h
  | takes j b message hb hm hx h =>
      by_cases hj : j = i
      · subst hj
        rw [h fun _ _ hc' => hkeep hc', hm, hplan hb]
        rfl
      · have hl : l ∉ b.plan.rosters.values := fun hl => hj (halone hb hl)
        rw [h fun hl' => absurd hl' hl, hx i (Ne.symm hj), Plan.changes_eq_nil hl]
        rfl

/-- The rosters of a service replay what it takes in, for as long as it is not removed. -/
theorem roster_run {p : Plan} (s : System) (later : List Stimulus)
    (hr : s.world.cells[l]? = some (.roster roster))
    (hkeep : ∀ {c : Controller}, (s.run later).controllers[i]? = some c →
      c.plan = p ∧ c.state ≠ .removed)
    (halone : ∀ {j : Nat} {b : Controller}, (s.run later).controllers[j]? = some b →
      l ∈ b.plan.rosters.values → j = i) :
    (s.run later).world.cells[l]? =
      some (.roster (roster.replay (p.changes l (s.intake later i)))) := by
  induction later using List.reverseRecOn with
  | nil => exact hr
  | append_singleton later x ih =>
      rw [run_snoc] at hkeep halone ⊢
      have halone' : ∀ {j : Nat} {b : Controller}, (s.run later).controllers[j]? = some b →
          l ∈ b.plan.rosters.values → j = i := by
        intro j b hb hl
        obtain ⟨b', hb', hplan, -⟩ := kept_apply hb x
        exact halone hb' (hplan ▸ hl)
      have hkeep' : ∀ {b : Controller}, (s.run later).controllers[i]? = some b →
          b.plan = p ∧ b.state ≠ .removed := by
        intro b hb
        obtain ⟨b', hb', hplan, hremoved⟩ := kept_apply hb x
        exact ⟨hplan ▸ (hkeep hb').1, fun h => (hkeep hb').2 (hremoved h)⟩
      rw [roster_apply (ih hkeep' halone') halone' (fun hb => (hkeep' hb).1)
        fun hb => (hkeep hb).2, intake_snoc, Plan.changes_append, Roster.replay_append]

end System

end ServiceHost
