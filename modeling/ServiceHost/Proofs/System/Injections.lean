import ServiceHost.Proofs.System.Cells
import ServiceHost.Proofs.System.Filling

/-! # When slots are filled

A slot holds something only while a service that binds it is between the beginning of its start and
its removal, whichever way it goes there. A service whose slots could not all be filled is not
started, and its `stop` is not called either. -/

namespace ServiceHost

/-! ## What is in a slot -/

namespace Cells

variable {cells cells' : Cells} {l : Label} {p : Name × Value}

theorem Frame.content? {P : Label → Prop} (h : Frame P cells cells') (hl : ¬P l) :
    cells'.content? l = cells.content? l := by
  rw [Cells.content?, h.kept hl, Cells.content?]

/-- A label that stands for no roster stood for none before. -/
theorem Frame.roster?_eq_none {P : Label → Prop} (h : Frame P cells cells')
    (hno : cells'.roster? l = none) : cells.roster? l = none := by
  rw [Option.eq_none_iff_forall_ne_some]
  intro roster hroster
  have hmem : l ∈ cells' := by
    refine h.mem ?_
    rw [Std.ExtTreeMap.mem_iff_isSome_getElem?]
    by_contra hnone
    simp [roster?, Option.not_isSome_iff_eq_none.mp hnone] at hroster
  have htype := h.type l
  rw [Std.ExtTreeMap.mem_iff_isSome_getElem?] at hmem
  obtain ⟨cell, hcell⟩ := Option.isSome_iff_exists.mp hmem
  obtain ⟨old, hold⟩ : ∃ old, cells[l]? = some old := by
    by_contra hnone
    simp [roster?, Option.eq_none_iff_forall_ne_some.mpr (not_exists.mp hnone)] at hroster
  cases cell <;> cases old <;> simp_all [roster?, slot?]

theorem content?_insert (cells : Cells) (x l : Label) (slot : Slot) :
    Cells.content? (cells.insert x (.slot slot)) l =
      if x = l then slot.content else cells.content? l := by
  rw [content?, slot?_insert_slot]
  split <;> rfl

/-- Whatever is in a slot after a value was put into some was put in, or was there before. -/
theorem content?_inject {source : Name} {value : Value} {labels : List Label}
    (h : (cells.inject source value labels).1.content? l = some p) :
    (p = (source, value) ∧ l ∈ labels) ∨ cells.content? l = some p := by
  induction labels generalizing cells with
  | nil => exact .inr h
  | cons x rest ih =>
      rw [inject] at h
      split at h
      · exact (ih h).imp_left fun h => ⟨h.1, List.mem_cons_of_mem _ h.2⟩
      · split at h
        · next slot _ slot' hinject =>
            rcases ih h with h | h
            · exact .inl ⟨h.1, List.mem_cons_of_mem _ h.2⟩
            · rw [content?_insert] at h
              split at h
              · next hx =>
                  unfold Slot.inject at hinject
                  split at hinject <;> cases hinject
                  exact .inl ⟨(Option.some.inj h).symm, hx ▸ List.mem_cons_self⟩
              · exact .inr h
        · exact .inr h

theorem content?_clearSlot (cells : Cells) (x l : Label) :
    (cells.clearSlot x).content? l = if x = l then none else cells.content? l := by
  unfold clearSlot
  split
  · next hnone =>
      split
      · next hx => simp [content?, ← hx, hnone]
      · rfl
  · exact content?_insert cells x l _

theorem content?_clearSlots (labels : List Label) (cells : Cells) (l : Label) :
    (labels.foldl clearSlot cells).content? l = if l ∈ labels then none else cells.content? l := by
  induction labels generalizing cells with
  | nil => simp
  | cons x rest ih =>
      rw [List.foldl_cons, ih, content?_clearSlot]
      grind

theorem content?_clearRosters (labels : List Label) (cells : Cells) (l : Label) :
    (labels.foldl clearRoster cells).content? l = cells.content? l :=
  (Frame.foldl (P := fun _ => False) (fun cells l _ => frame_clearRoster cells l) cells).content? id

end Cells

/-- Whatever is in a slot after dependencies were delivered was delivered, or was there before. -/
theorem Turn.content?_inject {plan : Plan} {values : List (Name × Value)} {cells : Cells}
    {l : Label} {p : Name × Value} (h : (Turn.inject plan cells values).1.content? l = some p) :
    (p ∈ values ∧ l ∈ plan.slotsOf p.1) ∨ cells.content? l = some p := by
  induction values generalizing cells with
  | nil => exact .inr h
  | cons q values ih =>
      obtain ⟨e, v⟩ := q
      rw [inject] at h
      have hone := @Cells.content?_inject cells l p e v (plan.slotsOf e)
      generalize cells.inject e v (plan.slotsOf e) = result at h hone
      obtain ⟨cells', outcome⟩ := result
      have hfirst : cells'.content? l = some p →
          (p ∈ (e, v) :: values ∧ l ∈ plan.slotsOf p.1) ∨ cells.content? l = some p := by
        refine fun h => (hone h).imp_left ?_
        rintro ⟨rfl, hl⟩
        exact ⟨List.mem_cons_self, hl⟩
      cases outcome with
      | error expected => exact hfirst h
      | ok _ =>
          rcases ih h with ⟨hp, hl⟩ | h
          · exact .inl ⟨List.mem_cons_of_mem _ hp, hl⟩
          · exact hfirst h

theorem Plan.content?_release (p : Plan) (resolved : List Name) (cells : Cells) (l : Label) :
    (p.release resolved cells).content? l =
      if ∃ d ∈ resolved, l ∈ p.slotsOf d then none else cells.content? l := by
  rw [release, Cells.content?_clearRosters, Cells.content?_clearSlots]
  simp only [List.mem_flatMap]

/-- Whoever is not bound to a slot, or is removed, leaves the slot alone. -/
theorem Controller.Handles.content? {c : Controller} {cells cells' : Cells} {resolved : List Name}
    {l : Label} (h : c.Handles cells cells' resolved)
    (hl : c.plan.Binds l → c.state = .removed) : cells'.content? l = cells.content? l := by
  have hframe := h.frame
  cases h with
  | spares hs hr => rfl
  | updates hi hu => exact hu.slots.content? id
  | fills hi hw => exact hframe.content? fun hb => by simpa [hw] using hl hb
  | releases hi hs => exact hframe.content? fun hb => by simpa [hs] using hl hb

namespace State.Advances

variable {state next : State} {l : List Effect}

theorem of_start (h : state.Advances next l) (hl : .injectAndStart ∈ l) :
    state = .waiting ∧ next = .starting false := by
  cases h with
  | stays => simp at hl
  | moves hm => cases hm <;> simp_all

/-- Whoever does not let go of what it holds stays under way. -/
theorem underway (h : state.Advances next l) (hl : .releaseInjected ∉ l) (hw : state ≠ .waiting)
    (hr : state ≠ .removed) : next ≠ .waiting ∧ next ≠ .removed := by
  cases h with
  | stays => exact ⟨hw, hr⟩
  | moves hm => cases hm <;> simp_all

theorem of_release (h : state.Advances next l) (hl : .releaseInjected ∈ l) : next = .removed := by
  cases h with
  | stays => cases hl
  | moves hm => cases hm <;> simp_all

/-- There are two ways to be removed: before a start, and after a stop. -/
theorem to_removed (h : state.Advances next l) (hn : next = .removed) (hs : state ≠ .removed) :
    (state = .waiting ∧ l = [.failStart .interrupted, .emitRemoved]) ∨
      (state = .stopping ∧ l = [.releaseInjected, .emitRemoved]) := by
  cases h with
  | stays => exact absurd hn hs
  | moves hm => cases hm <;> simp_all

theorem of_removed (h : state.Advances next l) (hs : state = .removed) : next = .removed := by
  cases h with
  | stays => exact hs
  | moves hm => exact (hs ▸ hm).removed

end State.Advances

namespace System

variable {s s' : System} {x : Stimulus} {happened : List Stimulus} {i : Nat} {c : Controller}
  {l : Label}

/-! ## Slots that are empty -/

/-- Whatever is in a slot was delivered to a service that is under way and binds the slot. -/
def Sourced (s : System) : Prop :=
  ∀ ⦃l : Label⦄ ⦃p : Name × Value⦄, s.world.cells.content? l = some p →
    ∃ (i : Nat) (c : Controller), s.controllers[i]? = some c ∧ l ∈ c.plan.slotsOf p.1 ∧
      p.1 ∈ c.resolved ∧ c.state ≠ .waiting ∧ c.state ≠ .removed

theorem Sourced.step (h : s.Sourced) (hh : s.Handled x s') : s'.Sourced := by
  intro l p hp
  cases hh with
  | rests hx hgrows hkept hrests =>
      rw [hgrows.content?] at hp
      obtain ⟨i, c, hc, hl, hres, hw, hr⟩ := h hp
      obtain ⟨c', hc', hrest⟩ := hkept hc
      exact ⟨i, c', hc', hrest.plan ▸ hl, hrest.resolved ▸ hres, hrest.state ▸ hw,
        hrest.state ▸ hr⟩
  | @takes i c c' cells hx hc hcan hcontrollers hfinal hplan ha hh hgrows =>
      rw [hgrows.content?] at hp
      have hself : s'.controllers[i]? = some c' := by
        rw [hcontrollers, List.getElem?_set_self (List.getElem?_eq_some_iff.mp hc).1]
      -- whoever held it still does, unless it is the one that acts
      have hold (hp : s.world.cells.content? l = some p)
          (hkeep : l ∈ c.plan.slotsOf p.1 → p.1 ∈ c.resolved → c.state ≠ .waiting →
            c.state ≠ .removed → p.1 ∈ c'.resolved ∧ c'.state ≠ .waiting ∧ c'.state ≠ .removed) :
          ∃ (j : Nat) (b : Controller), s'.controllers[j]? = some b ∧ l ∈ b.plan.slotsOf p.1 ∧
            p.1 ∈ b.resolved ∧ b.state ≠ .waiting ∧ b.state ≠ .removed := by
        obtain ⟨j, b, hb, hl, hres, hw, hr⟩ := h hp
        by_cases hji : j = i
        · subst hji
          obtain rfl := Option.some.inj (hc.symm.trans hb)
          obtain ⟨hres, hst⟩ := hkeep hl hres hw hr
          exact ⟨j, c', hself, hplan ▸ hl, hres, hst⟩
        · refine ⟨j, b, ?_, hl, hres, hw, hr⟩
          rw [hcontrollers, List.getElem?_set_ne (Ne.symm hji), hb]
      generalize hresolved : c'.resolved = resolved at hh
      cases hh with
      | spares hs hr =>
          refine hold hp fun _ hres hw hrem => ⟨hresolved ▸ hres, ?_⟩
          exact ha.underway hr hw hrem
      | updates hi hu =>
          have hnone : c.effects = [] := by simp [Controller.effects, hi]
          rw [hu.slots.content? id] at hp
          refine hold hp fun _ hres hw hrem => ⟨hresolved ▸ hres, ?_⟩
          exact ha.underway (by simp [hnone]) hw hrem
      | fills hi hw =>
          have hstart : c'.state = .starting false := (ha.of_start (by
            simp [Controller.effects, hi, hw, State.effects, transition, Event.signal])).2
          rcases Turn.content?_inject hp with ⟨hp, hl⟩ | hp
          · exact ⟨i, c', hself, hplan ▸ hl, hresolved ▸ List.mem_map_of_mem hp, by simp [hstart],
              by simp [hstart]⟩
          · exact hold hp fun _ _ hno => absurd hw hno
      | releases hi hs =>
          rw [Plan.content?_release] at hp
          split at hp
          · cases hp
          · next hno => exact hold hp fun hl hres => absurd ⟨p.1, hres, hl⟩ hno

theorem sourced_run (hx : ∀ x ∈ happened, x ≠ .cancel) : (initial.run happened).Sourced := by
  refine run_induction (P := fun happened => (initial.run happened).Sourced) ?_ ?_ hx
  · intro l p hp
    simp [initial, run, World.initial, Cells.content?, Cells.slot?] at hp
  · exact fun ho hs h => h.step (ho.handled hs (run_snoc ..).symm)

/-- A slot is empty as long as whoever binds it waits, or is removed. -/
theorem Sourced.empty (h : s.Sourced)
    (hl : ∀ {i : Nat} {c : Controller}, s.controllers[i]? = some c → c.plan.Binds l →
      c.state = .waiting ∨ c.state = .removed) : s.world.cells.content? l = none := by
  rw [Option.eq_none_iff_forall_ne_some]
  intro p hp
  obtain ⟨i, c, hc, hmem, _, hw, hr⟩ := h hp
  exact (hl hc ⟨p.1, hmem⟩).elim hw hr

end System

end ServiceHost
