import ServiceHost.Proofs.System.Injections

/-! # What is left on the rosters of a service

A controller empties its rosters when it handles that its service has stopped. Afterwards it still
takes in what the container told it before, and then ends. -/

namespace ServiceHost

/-! ## Who is on a roster -/

namespace Cells

variable {cells : Cells} {l x : Label}

theorem members_insert_slot {slot : Slot} (slot' : Slot) (h : cells.slot? x = some slot)
    (l : Label) : Cells.members (cells.insert x (.slot slot')) l = cells.members l := by
  have hroster : cells.roster? x = none := by
    unfold slot? at h
    unfold roster?
    split at h <;> simp_all
  by_cases hx : x = l
  · subst hx
    rw [Cells.members, Cells.members, hroster]
    simp [roster?]
  · simp [Cells.members, roster?, Std.ExtTreeMap.getElem?_insert, hx]

theorem members_clearSlot (cells : Cells) (x l : Label) :
    (cells.clearSlot x).members l = cells.members l := by
  unfold clearSlot
  split
  · rfl
  · next h => exact members_insert_slot _ h l

theorem members_clearSlots (labels : List Label) (cells : Cells) (l : Label) :
    (labels.foldl clearSlot cells).members l = cells.members l := by
  induction labels generalizing cells with
  | nil => rfl
  | cons x rest ih => rw [List.foldl_cons, ih, members_clearSlot]

theorem members_clearRoster (cells : Cells) (x l : Label) :
    (cells.clearRoster x).members l = if x = l then ∅ else cells.members l := by
  unfold clearRoster
  split
  · next hnone =>
      split
      · next hx => simp [Cells.members, ← hx, hnone]
      · rfl
  · exact members_insert cells x _ l

theorem members_clearRosters (labels : List Label) (cells : Cells) (l : Label) :
    (labels.foldl clearRoster cells).members l = if l ∈ labels then ∅ else cells.members l := by
  induction labels generalizing cells with
  | nil => simp
  | cons x rest ih =>
      rw [List.foldl_cons, ih, members_clearRoster]
      grind

theorem members_inject (source : Name) (value : Value) (labels : List Label) (cells : Cells)
    (l : Label) : (cells.inject source value labels).1.members l = cells.members l := by
  induction labels generalizing cells with
  | nil => rfl
  | cons x rest ih =>
      rw [inject]
      split
      · exact ih cells
      · next slot hslot =>
          split
          · rw [ih, members_insert_slot _ hslot]
          · rfl

end Cells

theorem Turn.members_inject (plan : Plan) (values : List (Name × Value)) (cells : Cells)
    (l : Label) : (Turn.inject plan cells values).1.members l = cells.members l := by
  induction values generalizing cells with
  | nil => rfl
  | cons p values ih =>
      obtain ⟨e, v⟩ := p
      have hone := Cells.members_inject e v (plan.slotsOf e) cells l
      rw [inject]
      generalize cells.inject e v (plan.slotsOf e) = result at hone
      obtain ⟨cells', outcome⟩ := result
      cases outcome with
      | error expected => exact hone
      | ok _ => exact (ih cells').trans hone

theorem Plan.members_release (p : Plan) (resolved : List Name) (cells : Cells) (l : Label) :
    (p.release resolved cells).members l =
      if l ∈ p.rosters.values then ∅ else cells.members l := by
  rw [release, Cells.members_clearRosters, Cells.members_clearSlots]

/-- Whoever does not refer to a group by a roster leaves the roster alone. -/
theorem Controller.Handles.members {c : Controller} {cells cells' : Cells} {resolved : List Name}
    {l : Label} (h : c.Handles cells cells' resolved) (hl : l ∉ c.plan.rosters.values) :
    cells'.members l = cells.members l := by
  cases h with
  | spares hs hr => rfl
  | updates hi hu => exact hu.others hl
  | fills hi hw => exact Turn.members_inject _ _ _ _
  | releases hi hs => rw [Plan.members_release, if_neg hl]

/-- A message puts a member on a roster. -/
def Message.Adds : Message → Prop
  | .reference (.added ..) => True
  | _ => False

instance : (message : Message) → Decidable message.Adds
  | .reference (.added ..) => isTrue trivial
  | .reference (.removed ..) => isFalse id
  | .lifecycle _ => isFalse id

/-- Whatever a controller still takes in before it ends puts nobody on a roster. -/
def Controller.Winding (c : Controller) : Prop :=
  c.ended = true ∨ ∃ pre post, c.inbox = pre ++ .lifecycle .removed :: post ∧
    ∀ message ∈ pre, ¬message.Adds

/-- A removed controller that takes a message winds down further. -/
theorem Controller.Winding.take {c : Controller} (h : c.Winding) (hr : c.state = .removed)
    (hcan : c.canTake = true) (id task : Nat) (w : World) :
    ((c.take id w).final task).Winding := by
  have hended : c.ended = false := ended_of_canTake hcan
  obtain ⟨pre, post, hinbox, hpre⟩ := h.resolve_left (by simp [hended])
  rcases take_cases hcan id w with ⟨message, rest, hi, hno, _, hs⟩ | ⟨e, rest, next, hi, _, hm, ht⟩
  · cases pre with
    | nil =>
        obtain ⟨rfl, rfl⟩ := List.cons.inj (hi.symm.trans hinbox)
        exact absurd (heeds_removed hr) (hno _ rfl)
    | cons first pre =>
        obtain ⟨rfl, rfl⟩ := List.cons.inj (hi.symm.trans hinbox)
        refine .inr ⟨pre, post, ?_, fun m hm => hpre m (List.mem_cons_of_mem _ hm)⟩
        rw [Turn.final_inbox, hs.controller, hended]
        rfl
  · have hlast : .terminate ∈ c.effects := by
      generalize c.effects = effects at hm
      rw [hr] at hm
      generalize e.signal = x at hm
      cases hm
      exact List.mem_singleton_self _
    exact .inl (by simp [ht.ended, hlast])

theorem Controller.Winding.rests {c c' : Controller} (h : c.Winding) (hr : c.Rests c') :
    c'.Winding := by
  refine h.imp (fun hended => hr.ended.trans hended) ?_
  rintro ⟨pre, post, hi, hpre⟩
  obtain ⟨more, hmore⟩ := hr.inbox
  exact ⟨pre, post ++ more, by simp [← hmore, hi], hpre⟩

/-- Only the end of a stop makes a controller let go of what it holds. -/
theorem Controller.stopped_of_release (c : Controller) (h : .releaseInjected ∈ c.effects) :
    ∃ rest, c.inbox = .lifecycle .stopped :: rest := by
  obtain ⟨e, rest, next, hi, hm⟩ := moves_of_effects h
  refine ⟨rest, ?_⟩
  generalize c.effects = effects at hm h
  generalize hx : e.signal = x at hm
  generalize c.state = state at hm
  cases hm <;> simp at h
  cases e <;> cases hx
  exact hi

namespace System

variable {s s' : System} {x : Stimulus} {happened : List Stimulus} {i : Nat} {c : Controller}

/-- Nobody else was ever bound to a roster of a service. -/
def OwnsRosters (s : System) (i : Nat) (c : Controller) : Prop :=
  ∀ ⦃j : Nat⦄ ⦃b : Controller⦄ ⦃l : Label⦄, s.controllers[j]? = some b →
    l ∈ c.plan.rosters.values → l ∈ b.plan.rosters.values → j = i

/-- Whenever a controller handled that its service has stopped, no message left in its inbox put a
member on a roster. -/
def ReleasedLast (happened : List Stimulus) (i : Nat) : Prop :=
  ∀ ⦃before after : List Stimulus⦄ ⦃c : Controller⦄ ⦃rest : List Message⦄,
    happened = before ++ .move (.take i) :: after →
    (initial.run before).controllers[i]? = some c → c.canTake = true → c.state = .stopping →
    c.inbox = .lifecycle .stopped :: rest → ∀ message ∈ rest, ¬message.Adds

/-- Nobody is on a roster of a removed service, and nobody gets onto one. -/
structure LetGo (s : System) (c : Controller) : Prop where
  empty : ∀ l ∈ c.plan.rosters.values, s.world.cells.members l = ∅
  winding : c.Winding

/-- A step of somebody else leaves the rosters of a service as they are. -/
theorem LetGo.others {b : Controller} {j : Nat} {cells : Cells} {resolved : List Name}
    (h : s.LetGo c) (hown : s.OwnsRosters i c) (hb : s.controllers[j]? = some b) (hji : j ≠ i)
    (hh : b.Handles s.world.cells cells resolved) (hgrows : cells.Grows s'.world.cells) :
    s'.LetGo c := by
  refine ⟨fun l hl => ?_, h.winding⟩
  rw [hgrows.members, hh.members fun hl' => hji (hown hb hl hl')]
  exact h.empty l hl

/-- A controller that winds down leaves its rosters empty. -/
theorem LetGo.take {cells : Cells} (h : s.LetGo c) (hr : c.state = .removed)
    (hcan : c.canTake = true) {c' : Controller}
    (hfinal : c' = (c.take i s.world).final s.tasks.length) (hplan : c'.plan = c.plan)
    {resolved : List Name} (hh : c.Handles s.world.cells cells resolved)
    (hgrows : cells.Grows s'.world.cells) : s'.LetGo c' := by
  refine ⟨fun l hl => ?_, hfinal ▸ h.winding.take hr hcan i _ _⟩
  rw [hplan] at hl
  rw [hgrows.members]
  cases hh with
  | spares => exact h.empty l hl
  | @updates u rest cells' hi hu =>
      have hended : c.ended = false := Controller.ended_of_canTake hcan
      obtain ⟨pre, post, hinbox, hpre⟩ := h.winding.resolve_left (by simp [hended])
      cases pre with
      | nil => cases hi.symm.trans hinbox
      | cons first pre =>
          obtain ⟨rfl, -⟩ := List.cons.inj (hi.symm.trans hinbox)
          cases u with
          | added g m v => exact absurd trivial (hpre _ List.mem_cons_self)
          | removed g m => exact hu.left rfl (h.empty l hl)
  | fills hi hw => simp [hr] at hw
  | releases hi hs => simp [hr] at hs

/-- A controller that handles that its service has stopped empties its rosters. -/
theorem LetGo.of_release {c' : Controller} {cells : Cells} {rest : List Message}
    (hcan : c.canTake = true) (hs : c.state = .stopping)
    (hi : c.inbox = .lifecycle .stopped :: rest) (hrest : ∀ message ∈ rest, ¬message.Adds)
    (hfinal : c' = (c.take i s.world).final s.tasks.length) (hplan : c'.plan = c.plan)
    {resolved : List Name} (hh : c.Handles s.world.cells cells resolved)
    (hgrows : cells.Grows s'.world.cells) : s'.LetGo c' := by
  have heffects : c.effects = [.releaseInjected, .emitRemoved] := by
    simp [Controller.effects, hi, hs, State.effects, transition, Event.signal]
  refine ⟨fun l hl => ?_, .inr ⟨rest, [], ?_, hrest⟩⟩
  · rw [hplan] at hl
    rw [hgrows.members]
    cases hh with
    | spares _ hr => simp [heffects] at hr
    | updates hi' => cases hi.symm.trans hi'
    | fills hi' => cases hi.symm.trans hi'
    | releases => rw [Plan.members_release, if_pos hl]
  · rcases Controller.take_cases hcan i s.world with
      ⟨_, _, _, _, hnone, _⟩ | ⟨e, rest', next, hi', _, hm, ht⟩
    · simp [heffects] at hnone
    · obtain ⟨_, rfl⟩ := List.cons.inj (hi.symm.trans hi')
      obtain ⟨hinbox, -⟩ := heffects ▸ ht.left
      rw [hfinal, Turn.final_inbox, ht.ended, heffects, Controller.ended_of_canTake hcan]
      rw [if_neg (by simp)]
      exact hinbox

/-- Whoever left after its start had begun, and had nobody to put on a roster any more when it was
stopped, leaves its rosters empty. -/
theorem letGo_run (hx : ∀ x ∈ happened, x ≠ .cancel)
    (hc : (initial.run happened).controllers[i]? = some c)
    (hstart : .injectAndStart ∈ initial.trace happened i) (hr : c.state = .removed)
    (hown : (initial.run happened).OwnsRosters i c) (hlast : ReleasedLast happened i) :
    (initial.run happened).LetGo c := by
  refine run_induction (P := fun happened => (∀ x ∈ happened, x ≠ .cancel) →
    ∀ {c : Controller}, (initial.run happened).controllers[i]? = some c →
      .injectAndStart ∈ initial.trace happened i → c.state = .removed →
      (initial.run happened).OwnsRosters i c → ReleasedLast happened i →
      (initial.run happened).LetGo c) ?_ ?_ hx hx hc hstart hr hown hlast
  · intro _ c hc
    simp [initial, run] at hc
  · intro happened x ho hs h hx c' hc' hstart hr hown hlast
    have hxb : ∀ y ∈ happened, y ≠ .cancel := fun y hy => hx y (List.mem_append_left _ hy)
    have hhandled := ho.handled hs (run_snoc ..).symm
    have hlastb : ReleasedLast happened i :=
      fun _ after _ _ he hc hcan hst hi =>
        hlast (by rw [he, List.append_assoc, List.cons_append]) hc hcan hst hi
    have hownb : ∀ {c : Controller}, c'.plan = c.plan →
        (initial.run happened).OwnsRosters i c := by
      intro c hplan j b l hb hl hl'
      obtain ⟨b', hb', hplan'⟩ := hhandled.kept hb
      exact hown hb' (hplan ▸ hl) (hplan' ▸ hl')
    rw [trace_snoc, List.mem_append] at hstart
    cases hhandled with
    | rests hno hgrows hkept hall =>
        rw [hno] at hstart
        rcases hall hc' with ⟨c, hc, hrests⟩ | ⟨_, _, plan, ticket, messages, rfl⟩
        · have hold := h hxb hc (hstart.resolve_right (by simp)) (hrests.state ▸ hr)
            (hownb hrests.plan) hlastb
          refine ⟨fun l hl => ?_, hold.winding.rests hrests⟩
          rw [hgrows.members]
          exact hold.empty l (hrests.plan ▸ hl)
        · simp [Controller.told_state, Controller.launch] at hr
    | @takes j b b' cells hx' hb hcan hcontrollers hfinal hplan ha hh hgrows =>
        rw [hcontrollers, List.getElem?_set] at hc'
        split at hc'
        · next hji =>
            subst hji
            rw [if_pos (List.getElem?_eq_some_iff.mp hb).1] at hc'
            obtain rfl := Option.some.inj hc'
            rw [hx', effects_take hb hcan] at hstart
            by_cases hrb : b.state = .removed
            · refine LetGo.take (h hxb hb (hstart.resolve_right fun he => ?_) hrb (hownb hplan)
                hlastb) hrb hcan hfinal hplan hh hgrows
              simp [(ha.of_start he).1] at hrb
            · rcases ha.to_removed hr hrb with ⟨hw, he⟩ | ⟨hst, he⟩
              · refine absurd hstart (not_or.mpr ⟨((hasRun hxb).ran hb).unstarted hw, ?_⟩)
                simp [he]
              · obtain ⟨rest, hi⟩ := b.stopped_of_release (he ▸ List.mem_cons_self)
                exact .of_release hcan hst hi (hlast (by rw [hx']) hb hcan hst hi) hfinal hplan hh
                  hgrows
        · next hji =>
            rw [hx', effects_take_of_ne hji] at hstart
            exact (h hxb hc' (hstart.resolve_right (by simp)) hr (hownb rfl) hlastb).others (hownb rfl)
              hb hji hh hgrows

/-- A service that has ended leaves nobody on its rosters, if it began to start, and no message that
put a member on one was left in its inbox when it had stopped. -/
theorem cleared_of_ended (hx : ∀ x ∈ happened, x ≠ .cancel)
    (hc : (initial.run happened).controllers[i]? = some c) (hended : c.ended = true)
    (hown : (initial.run happened).OwnsRosters i c)
    (hstart : .injectAndStart ∈ initial.trace happened i) (hlast : ReleasedLast happened i) :
    ∀ l ∈ c.plan.rosters.values, (initial.run happened).world.cells.members l = ∅ :=
  (letGo_run hx hc hstart ((orderly_run hx).endsRemoved hc hended) hown hlast).empty

/-- A member of a group. -/
def groupMember : Service :=
  { plainService "member" [] with value := .u64 7, group := some "group" }

/-- A service that refers to the group. -/
def groupObserver (needs : List Name) : Service :=
  { plainService "observer" needs with rosters := [⟨"group", .u64, "l", false⟩] }

theorem ownsRosters_of_others (h : ∀ j < s.controllers.length, j ≠ i →
    s.controllers[j]?.map (·.plan.rosters.values) = some []) : s.OwnsRosters i c := by
  intro j b l hb _ hl
  by_contra hji
  have hnone := h j (List.getElem?_eq_some_iff.mp hb).1 hji
  rw [hb, Option.map_some, Option.some.injEq] at hnone
  rw [hnone] at hl
  cases hl

/-- An observer is started while a member is there, and then removed. -/
def observerStops : List Stimulus :=
  [.request (.request 0) .start, .request (.request 1) (.install groupMember),
    .request (.request 2) (.install (groupObserver []))] ++ turns 6 2 ++
  .request (.request 3) (.remove "observer") :: turns 6 2

theorem releasedLast_observerStops : ReleasedLast observerStops 1 := by
  rintro before after c rest he hc - hst hi message hm
  have hall : ∀ k < observerStops.length,
      ((initial.run (observerStops.take k)).controllers[1]?.all fun c =>
        c.state ≠ .stopping || c.inbox.tail.all fun m => ¬m.Adds) = true := by decide +kernel
  have hnow := hall before.length (by simp [he])
  rw [show observerStops.take before.length = before by rw [he, List.take_left], hc] at hnow
  simp only [Option.all_some, hst, hi, List.tail_cons] at hnow
  exact (by simpa using hnow : ∀ m ∈ rest, ¬m.Adds) message hm

theorem cleared_observerStops : (∀ x ∈ observerStops, x ≠ .cancel) ∧
    ∃ c, (initial.run observerStops).controllers[1]? = some c ∧ c.ended = true ∧
      (initial.run observerStops).OwnsRosters 1 c ∧
      .injectAndStart ∈ initial.trace observerStops 1 ∧ ReleasedLast observerStops 1 ∧
      c.plan.rosters.values = ["l"] ∧ (initial.run observerStops).world.cells.members "l" = ∅ := by
  have hx : ∀ x ∈ observerStops, x ≠ .cancel := by
    simp only [observerStops, List.forall_mem_append, List.forall_mem_cons]
    exact ⟨⟨by simp, not_cancel_turns 6 2⟩, by simp, not_cancel_turns 6 2⟩
  have hobserver : (initial.run observerStops).controllers[1]?.map
      (fun c => (c.ended, c.plan.rosters.values)) = some (true, ["l"]) := by decide +kernel
  obtain ⟨c, hc, he⟩ := Option.map_eq_some_iff.mp hobserver
  obtain ⟨hended, hvalues⟩ := Prod.mk.inj he
  have hown : (initial.run observerStops).OwnsRosters 1 c :=
    ownsRosters_of_others (by decide +kernel)
  have hstart : .injectAndStart ∈ initial.trace observerStops 1 := by decide +kernel
  exact ⟨hx, c, hc, hended, hown, hstart, releasedLast_observerStops, hvalues,
    cleared_of_ended hx hc hended hown hstart releasedLast_observerStops "l" (by simp [hvalues])⟩

/-- A service that is removed while it waits leaves its rosters as they are. -/
theorem not_cleared_of_waiting : ¬∀ (happened : List Stimulus) (i : Nat) (c : Controller),
    (∀ x ∈ happened, x ≠ .cancel) → (initial.run happened).controllers[i]? = some c →
    c.ended = true → (initial.run happened).OwnsRosters i c →
    ∀ l ∈ c.plan.rosters.values, (initial.run happened).world.cells.members l = ∅ := by
  intro h
  let happened : List Stimulus :=
    [.request (.request 0) .start, .request (.request 1) (.install groupMember),
      .request (.request 2) (.install (groupObserver ["missing"]))] ++ turns 6 2 ++
    .request (.request 3) (.remove "observer") :: turns 6 2
  have hx : ∀ x ∈ happened, x ≠ .cancel := by
    simp only [happened, List.forall_mem_append, List.forall_mem_cons]
    exact ⟨⟨by simp, not_cancel_turns 6 2⟩, by simp, not_cancel_turns 6 2⟩
  have hobserver : (initial.run happened).controllers[1]?.map
      (fun c => (c.ended, c.plan.rosters.values)) = some (true, ["l"]) := by decide +kernel
  obtain ⟨c, hc, he⟩ := Option.map_eq_some_iff.mp hobserver
  obtain ⟨hended, hvalues⟩ := Prod.mk.inj he
  have hempty := h happened 1 c hx hc hended (ownsRosters_of_others (by decide +kernel)) "l"
    (by simp [hvalues])
  have hleft : ((initial.run happened).world.cells.members "l")["member"]? = some (.u64 7) := by
    decide +kernel
  simp [hempty] at hleft

/-- A member that joins once a service has stopped, and before the service handles that, is left on
its roster. -/
theorem not_cleared_of_late : ¬∀ (happened : List Stimulus) (i : Nat) (c : Controller),
    (∀ x ∈ happened, x ≠ .cancel) → (initial.run happened).controllers[i]? = some c →
    c.ended = true → (initial.run happened).OwnsRosters i c →
    .injectAndStart ∈ initial.trace happened i →
    ∀ l ∈ c.plan.rosters.values, (initial.run happened).world.cells.members l = ∅ := by
  intro h
  let happened : List Stimulus :=
    [.request (.request 0) .start, .request (.request 1) (.install (groupObserver []))] ++
      turns 4 1 ++
    [.request (.request 2) (.remove "observer"), .move .receive, .move (.take 0), .move (.take 0),
      .request (.request 3) (.install groupMember), .move .receive, .move .receive,
      .move .receive, .move (.take 1), .move (.take 1), .move .receive, .move .receive] ++
      turns 4 2
  have hx : ∀ x ∈ happened, x ≠ .cancel := by
    simp only [happened, List.forall_mem_append]
    exact ⟨⟨⟨by simp, not_cancel_turns 4 1⟩, by simp⟩, not_cancel_turns 4 2⟩
  have hobserver : (initial.run happened).controllers[0]?.map
      (fun c => (c.ended, c.plan.rosters.values)) = some (true, ["l"]) := by decide +kernel
  obtain ⟨c, hc, he⟩ := Option.map_eq_some_iff.mp hobserver
  obtain ⟨hended, hvalues⟩ := Prod.mk.inj he
  have hempty := h happened 0 c hx hc hended (ownsRosters_of_others (by decide +kernel))
    (by decide +kernel) "l" (by simp [hvalues])
  have hleft : ((initial.run happened).world.cells.members "l")["member"]? = some (.u64 7) := by
    decide +kernel
  simp [hempty] at hleft

end System

end ServiceHost
