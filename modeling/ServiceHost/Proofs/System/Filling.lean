import ServiceHost.Proofs.System.Installing

/-! # What the slots come to hold

While services that fit together are installed, the slots of those that have been started hold what
their dependencies expose, and no slot holds anything else. -/

namespace ServiceHost

/-! ## Injection -/

/-- A slot there is after values were put in holds the value put into it last, or what it held. -/
theorem Cells.slot?_inject {source : Name} {value : Value} {labels : List Label} {cells : Cells}
    (hok : (cells.inject source value labels).2 = .ok ()) {l : Label} {slot : Slot}
    (hslot : (cells.inject source value labels).1.slot? l = some slot) :
    (l ∈ labels ∧ slot.content = some (source, value)) ∨
      (l ∉ labels ∧ cells.slot? l = some slot) := by
  induction labels generalizing cells with
  | nil => exact .inr ⟨List.not_mem_nil, hslot⟩
  | cons x labels ih =>
      rw [inject] at hok hslot
      cases hx : cells.slot? x with
      | none =>
          simp only [hx] at hok hslot
          refine (ih hok hslot).imp (fun h => ⟨List.mem_cons_of_mem _ h.1, h.2⟩) fun h => ⟨?_, h.2⟩
          rw [List.mem_cons, not_or]
          refine ⟨?_, h.1⟩
          rintro rfl
          simp [hx] at h
      | some old =>
          simp only [hx, Slot.inject] at hok hslot
          by_cases htype : value.type = old.type
          · simp only [htype, if_true] at hok hslot
            rcases ih hok hslot with h | ⟨hno, h⟩
            · exact .inl ⟨List.mem_cons_of_mem _ h.1, h.2⟩
            · rw [slot?_insert_slot] at h
              split at h
              · next hl =>
                  rw [← Option.some.inj h]
                  exact .inl ⟨hl ▸ List.mem_cons_self, rfl⟩
              · next hl => exact .inr ⟨by simp [hno, Ne.symm hl], h⟩
          · simp [htype] at hok

/-- A slot there is after values were put in holds one of the values offered for it, or what it held
if none was. -/
theorem Turn.slot?_inject {plan : Plan} {values : List (Name × Value)} {cells : Cells}
    (hok : (Turn.inject plan cells values).2 = .ok ()) {l : Label} {slot : Slot}
    (hslot : (Turn.inject plan cells values).1.slot? l = some slot) :
    (∃ p ∈ values, l ∈ plan.slotsOf p.1 ∧ slot.content = some p) ∨
      ((∀ p ∈ values, l ∉ plan.slotsOf p.1) ∧ cells.slot? l = some slot) := by
  induction values generalizing cells with
  | nil => exact .inr ⟨by simp, hslot⟩
  | cons p values ih =>
      obtain ⟨e, v⟩ := p
      rw [inject] at hok hslot
      have hone := @Cells.slot?_inject e v (plan.slotsOf e) cells
      generalize cells.inject e v (plan.slotsOf e) = result at hok hslot hone
      obtain ⟨cells', outcome⟩ := result
      cases outcome with
      | error expected => cases hok
      | ok _ =>
          rcases ih hok hslot with ⟨p, hp, h⟩ | ⟨hno, h⟩
          · exact .inl ⟨p, List.mem_cons_of_mem _ hp, h⟩
          · rcases hone rfl h with ⟨hl, hcontent⟩ | ⟨hl, hcells⟩
            · exact .inl ⟨(e, v), List.mem_cons_self, hl, hcontent⟩
            · exact .inr ⟨List.forall_mem_cons.mpr ⟨hl, hno⟩, hcells⟩

namespace System

variable {s s' : System} {type : Label → ValueType} {asked : List Service}

/-! ## Who has been started -/

/-- Whoever has been started was before, or is started now. -/
theorem Installing.started_before (h' : Installing type asked s') (ho : s.Orderly) {x : Stimulus}
    (hs : Step s x s') {i : Nat} {c' : Controller} (hc' : s'.controllers[i]? = some c')
    (hw : c'.state ≠ .waiting) : ∃ c, s.controllers[i]? = some c ∧ c'.plan = c.plan ∧
      (c.state ≠ .waiting ∨ .injectAndStart ∈ s.effects x i) := by
  cases ho.becomes hs hc' with
  | rests hc hr => exact ⟨_, hc, hr.plan, .inl (hr.state ▸ hw)⟩
  | @takes c hx hc hcan hfinal =>
      refine ⟨c, hc, hfinal ▸ plan_take hcan i _ _, ?_⟩
      rw [hx, effects_take hc hcan, or_iff_not_imp_left, not_not]
      intro hwaits
      have hallows := (h'.tame hc').state
      have hadv := advances_take hcan i s.tasks.length s.world
      rw [← hfinal, hwaits] at hadv
      generalize c'.state = next, c.effects = effects at hw hallows hadv ⊢
      cases hadv with
      | stays => exact absurd rfl hw
      | moves hm => cases hm <;> simp_all [Phase.Allows]
  | launched plan ticket messages _ _ hlaunched =>
      rw [hlaunched, Controller.told_state] at hw
      exact absurd rfl hw

/-- Whoever has been started stays so, and whoever is started now has been from now on. -/
theorem Orderly.started_after (ho : s.Orderly) {x : Stimulus} (hs : Step s x s') {i : Nat}
    {c : Controller} (hc : s.controllers[i]? = some c)
    (hw : c.state ≠ .waiting ∨ .injectAndStart ∈ s.effects x i) :
    ∃ c', s'.controllers[i]? = some c' ∧ c'.plan = c.plan ∧ c'.state ≠ .waiting := by
  obtain ⟨c', hc'⟩ := (ho.supplying hs).exists_controller hc
  refine ⟨c', hc', ?_⟩
  cases ho.becomes hs hc' with
  | rests hold hr hnone =>
      obtain rfl := Option.some.inj (hc.symm.trans hold)
      rw [hnone] at hw
      exact ⟨hr.plan, hr.state ▸ hw.resolve_right List.not_mem_nil⟩
  | takes hx hold hcan hfinal =>
      obtain rfl := Option.some.inj (hc.symm.trans hold)
      refine ⟨hfinal ▸ plan_take hcan i _ _, ?_⟩
      rw [hx, effects_take hc hcan] at hw
      have hadv := advances_take hcan i s.tasks.length s.world
      rw [← hfinal] at hadv
      generalize c'.state = next, c.state = state, c.effects = effects at hw hadv ⊢
      cases hadv with
      | stays => exact hw.resolve_right List.not_mem_nil
      | moves hm => cases hm <;> simp
  | launched _ _ _ _ hle =>
      have := (List.getElem?_eq_some_iff.mp hc).1
      omega

/-- What a step makes of the slots: it leaves them alone, or a service is started and its slots are
filled. -/
inductive Fills (s : System) (x : Stimulus) (cells : Cells) : Prop
  | kept (h : Cells.Frame (fun _ => False) s.world.cells cells)
    (hno : ∀ i, .injectAndStart ∉ s.effects x i)
  | filled (i : Nat) (c : Controller) (values : List (Name × Value))
    (hc : s.controllers[i]? = some c) (hpos : 0 < s.offers i values)
    (hok : (Turn.inject c.plan s.world.cells values).2 = .ok ())
    (hcells : cells = (Turn.inject c.plan s.world.cells values).1)
    (he : .injectAndStart ∈ s.effects x i) (hno : ∀ j, j ≠ i → .injectAndStart ∉ s.effects x j)

theorem Installing.fills (h : Installing type asked s) (hf : Fits type asked) (ho : s.Orderly)
    {x : Stimulus} (hs : Step s x s') (hx : x.isInternal = true) : Fills s x s'.world.cells := by
  cases hs with
  | calm hcalm hidle =>
      refine .kept (.of_eq hcalm.cells) fun i he => ?_
      obtain ⟨c, rfl, hc, hcan, _⟩ := take_of_effects he
      simpa [canMove, hc, hcan] using hidle i rfl
  | opened | asked => cases hx
  | received r rest hserving hi =>
      exact .kept (.of_eq (receive_cells _)) (by simp [effects_of_ne])
  | finished hst => simp [h.phased.opened] at hst
  | took id c hc hcan =>
      have hother : ∀ j, j ≠ id → .injectAndStart ∉ s.effects (.move (.take id)) j := by
        intro j hj
        simp [effects_take_of_ne hj.symm]
      obtain ⟨_, message, rest, hi, hrefills⟩ := (h.tame hc).take hcan id (h.accepts hf hc)
      rw [applyTurn_cells]
      generalize (c.take id s.world).world.cells = cells at hrefills
      cases hrefills with
      | kept hno hframe =>
          refine .kept hframe fun j => ?_
          by_cases hj : j = id
          · rwa [hj, effects_take hc hcan]
          · exact hother j hj
      | filled values hp hm he =>
          have hmem : .lifecycle (.dependenciesAvailable values) ∈ c.inbox := by
            rw [hi, hm]
            exact List.mem_cons_self
          exact .filled id c values hc (offers_pos hc hmem) (h.accepts hf hc values hmem) rfl
            (by rwa [effects_take hc hcan]) hother
      | emptied hp => cases hp
  | resumed id c callback answer hc hwake =>
      exact .kept (.of_eq ((applyTurn_cells _ _ _).trans (h.phased.resume ho hc hwake).2))
        (by simp [effects_of_ne])
  | joined id t outcome hj => exact .kept (.of_eq hj.cells) (by simp [effects_of_ne])

/-! ## What is in the slots -/

/-- Every slot that a started service binds is filled, and whatever is in a slot is exposed by the
dependency a started service binds it to. -/
structure Filled (asked : List Service) (s : System) : Prop where
  cells : ∀ d ∈ asked, ∀ b ∈ d.slots, b.label ∈ s.world.cells
  filled : ∀ {i : Nat} {c : Controller} {e : Name} {l : Label} {slot : Slot},
    s.controllers[i]? = some c → c.state ≠ .waiting → l ∈ c.plan.slotsOf e →
    s.world.cells.slot? l = some slot → slot.content.isSome = true
  sourced : ∀ {l : Label} {slot : Slot} {p : Name × Value}, s.world.cells.slot? l = some slot →
    slot.content = some p → (∃ d ∈ asked, d.name = p.1 ∧ d.value = p.2) ∧
      ∃ (i : Nat) (c : Controller), s.controllers[i]? = some c ∧ c.state ≠ .waiting ∧
        l ∈ c.plan.slotsOf p.1

theorem Filled.step (hfilled : Filled asked s) (h : Installing type asked s)
    (h' : Installing type asked s') (hf : Fits type asked) (ho : s.Orderly) {x : Stimulus}
    (hs : Step s x s') (hx : x.isInternal = true) : Filled asked s' := by
  cases h.fills hf ho hs hx with
  | kept hframe hno =>
      refine ⟨fun d hd b hb => hframe.mem (hfilled.cells d hd b hb), ?_, ?_⟩
      · intro i c' e l slot hc' hw hl hslot
        obtain ⟨c, hc, hplan, hbefore⟩ := h'.started_before ho hs hc' hw
        exact hfilled.filled hc (hbefore.resolve_right (hno i)) (hplan ▸ hl)
          (hframe.kept not_false ▸ hslot)
      · intro l slot p hslot hp
        obtain ⟨hvalue, i, c, hc, hw, hl⟩ := hfilled.sourced (hframe.kept not_false ▸ hslot) hp
        obtain ⟨c', hc', hplan, hw'⟩ := ho.started_after hs hc (.inl hw)
        exact ⟨hvalue, i, c', hc', hw', hplan ▸ hl⟩
  | filled id c values hc hpos hok hcells he hno =>
      refine ⟨fun d hd b hb => ?_, ?_, ?_⟩
      · rw [hcells]
        exact (Turn.frame_inject c.plan values s.world.cells).mem (hfilled.cells d hd b hb)
      · intro i c' e l slot hc' hw hl hslot
        rw [hcells] at hslot
        rcases Turn.slot?_inject hok hslot with ⟨p, _, _, hp⟩ | ⟨hnone, hold⟩
        · simp [hp]
        · obtain ⟨b, hb, hplan, hbefore⟩ := h'.started_before ho hs hc' hw
          rw [hplan] at hl
          rcases hbefore with hw | hstarts
          · exact hfilled.filled hb hw hl hold
          · -- whoever is started now was offered a value for each of its slots
            obtain rfl : i = id := by
              by_contra hi
              exact hno i hi hstarts
            obtain rfl := Option.some.inj (hc.symm.trans hb)
            obtain ⟨d, _, hdecl⟩ := h.lined.declared hc
            have hdep : e ∈ c.plan.dependencies := by
              rw [hdecl, Declaration.mem_plan_dependencies]
              rw [hdecl, Declaration.mem_plan_slotsOf] at hl
              obtain ⟨b, hb, hdep, _⟩ := hl
              exact .inr ⟨b, hb, hdep⟩
            obtain ⟨v, hv⟩ := h.covered hc hpos e hdep
            exact absurd hl (hnone (e, v) hv)
      · intro l slot p hslot hp
        rw [hcells] at hslot
        rcases Turn.slot?_inject hok hslot with ⟨q, hq, hl, hcontent⟩ | ⟨_, hold⟩
        · obtain rfl := Option.some.inj (hp.symm.trans hcontent)
          obtain ⟨c', hc', hplan, hw'⟩ := ho.started_after hs hc (.inr he)
          exact ⟨h.offered hpos p hq, id, c', hc', hw', hplan ▸ hl⟩
        · obtain ⟨hvalue, i, b, hb, hw, hl⟩ := hfilled.sourced hold hp
          obtain ⟨b', hb', hplan, hw'⟩ := ho.started_after hs hb (.inl hw)
          exact ⟨hvalue, i, b', hb', hw', hplan ▸ hl⟩

/-- One more service is asked for, and its slots are empty at first. -/
theorem Filled.request (hfilled : Filled asked s) (h : Installing type asked s) {d : Service}
    (origin : Origin) :
    Filled (asked ++ [d]) (s.apply (.request origin (.install d))) := by
  have hr := asksFor_apply h.phased.opened origin d
  generalize s.apply (.request origin (.install d)) = s' at hr
  refine ⟨fun e he b hb => ?_, ?_, ?_⟩
  · rw [hr.cells]
    rcases List.mem_append.mp he with he | he
    · exact Cells.mem_createFor.mpr (.inr (.inr (hfilled.cells e he b hb)))
    · exact Cells.mem_createFor.mpr (.inr (.inl ⟨b, List.mem_singleton.mp he ▸ hb, rfl⟩))
  · intro i c e l slot hc hw hl hslot
    rw [hr.controllers] at hc
    rw [hr.cells] at hslot
    rcases Cells.slot?_createFor hslot with hold | ⟨_, _, _, hno, _⟩
    · exact hfilled.filled hc hw hl hold
    · obtain ⟨d₀, hd₀, hplan⟩ := h.lined.declared hc
      rw [hplan, Declaration.mem_plan_slotsOf] at hl
      obtain ⟨b, hb, _, rfl⟩ := hl
      exact absurd (hfilled.cells d₀ (List.mem_of_getElem? hd₀) b hb) hno
  · intro l slot p hslot hp
    rw [hr.cells] at hslot
    rcases Cells.slot?_createFor hslot with hold | ⟨_, _, _, _, rfl⟩
    · obtain ⟨⟨e, he, hvalue⟩, hsource⟩ := hfilled.sourced hold hp
      rw [hr.controllers]
      exact ⟨⟨e, List.mem_append_left _ he, hvalue⟩, hsource⟩
    · cases hp

theorem OnlyInstalls.filled {happened : List Stimulus} (h : OnlyInstalls happened)
    (hf : Fits type (installRequests happened)) :
    Filled (installRequests happened) (initial.run happened) := by
  induction h with
  | opened origin =>
      have hcells : (initial.run [.request origin .start]).world.cells = ∅ := rfl
      have hcontrollers : (initial.run [.request origin .start]).controllers = [] := rfl
      refine ⟨fun d hd => absurd hd List.not_mem_nil, ?_, ?_⟩
      · simp [hcontrollers]
      · simp [hcells, Cells.slot?]
  | @went happened x h hx ih =>
      have hno := h.not_cancel
      have ho := orderly_run hno
      have hafter := (h.went hx).run hf
      rw [installRequests_went hx] at hf hafter ⊢
      rw [run_append] at hafter ⊢
      refine (ih hf).step (h.run hf) hafter hf ho (step_apply ho.uncancelled ?_) hx
      rintro rfl
      cases hx
  | @requested happened h origin d ih =>
      rw [installRequests_requested] at hf ⊢
      have hbefore := hf.sublist (List.sublist_append_left _ [d])
      rw [run_append]
      exact (ih hbefore).request (h.run hbefore) origin

end System

end ServiceHost
