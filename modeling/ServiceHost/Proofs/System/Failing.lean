import ServiceHost.Proofs.System.Attempts
import ServiceHost.Proofs.System.Cascade
import ServiceHost.Proofs.System.Injections

/-! # A service whose start fails

A service that is given its dependencies and fails to start goes through the rest of its lifecycle
without its `stop` being called: it tells its installer the cause, empties its slots, and is
removed. -/

namespace ServiceHost

/-! ## Slots take values by their types -/

theorem Cells.inject_outcome {cells cells' : Cells} (source : Name) (value : Value)
    (labels : List Label)
    (h : ∀ l, (cells'.slot? l).map Slot.type = (cells.slot? l).map Slot.type) :
    (cells'.inject source value labels).2 = (cells.inject source value labels).2 := by
  induction labels generalizing cells cells' with
  | nil => rfl
  | cons x labels ih =>
      have hx := h x
      rw [inject, inject]
      cases hslot : cells.slot? x with
      | none =>
          rw [hslot, Option.map_none, Option.map_eq_none_iff] at hx
          rw [hx]
          exact ih h
      | some slot =>
          rw [hslot, Option.map_some, Option.map_eq_some_iff] at hx
          obtain ⟨slot', hslot', htype⟩ := hx
          rw [hslot']
          by_cases hv : value.type = slot.type
          · simp only [Slot.inject, htype, hv, if_true]
            refine ih fun l => ?_
            rw [slot?_insert_slot, slot?_insert_slot]
            split
            · simp
            · exact h l
          · simp [Slot.inject, htype, hv]

/-- Whether slots take what is offered for them depends on their types alone. -/
theorem Turn.inject_outcome {plan : Plan} {cells cells' : Cells} {values : List (Name × Value)}
    (h : ∀ l, (cells'.slot? l).map Slot.type = (cells.slot? l).map Slot.type) :
    (Turn.inject plan cells' values).2 = (Turn.inject plan cells values).2 := by
  induction values generalizing cells cells' with
  | nil => rfl
  | cons p values ih =>
      obtain ⟨e, v⟩ := p
      have hsame := Cells.inject_outcome e v (plan.slotsOf e) h
      have hframe := Cells.frame_inject (P := fun _ => True) e v (plan.slotsOf e) cells
        fun _ _ => trivial
      have hframe' := Cells.frame_inject (P := fun _ => True) e v (plan.slotsOf e) cells'
        fun _ _ => trivial
      rw [inject, inject]
      generalize cells.inject e v (plan.slotsOf e) = result at hsame hframe
      generalize cells'.inject e v (plan.slotsOf e) = result' at hsame hframe'
      obtain ⟨after, outcome⟩ := result
      obtain ⟨after', outcome'⟩ := result'
      obtain rfl : outcome' = outcome := hsame
      cases outcome' with
      | ok _ => exact ih fun l => (hframe'.type l).trans ((h l).trans (hframe.type l).symm)
      | error expected => rfl

theorem Plan.startOutcome?_congr {p : Plan} {cells cells' : Cells} {values : List (Name × Value)}
    (h : ∀ l, (cells'.slot? l).map Slot.type = (cells.slot? l).map Slot.type) :
    p.startOutcome? cells' values = p.startOutcome? cells values := by
  simp only [Plan.startOutcome?, Turn.inject_outcome h]

/-! ## The way of a failing service -/

/-- Where a service stands that was given its dependencies and fails to start. -/
inductive Controller.Fails (f : Failure) (cells : Cells) (c : Controller) : Prop
  | offered (values : List (Name × Value)) (hs : c.state = .waiting) (hc : c.callback = none)
    (hmem : .lifecycle (.dependenciesAvailable values) ∈ c.inbox)
    (hone : c.signals = [.dependenciesAvailable])
    (ho : c.plan.startOutcome? cells values = some (.error f))
    (hcover : ∀ e ∈ c.plan.dependencies, e ∈ values.map Prod.fst)
  | starting (hs : c.state = .starting false)
    (hc : ∀ callback, c.callback = some callback → callback.Heads (.error f))
    (honly : ∀ e, .lifecycle e ∈ c.inbox → e = .startFailed f)
    (hcover : ∀ e ∈ c.plan.dependencies, e ∈ c.resolved)
  | stopping (hs : c.state = .stopping) (hc : c.callback = none)
    (hcover : ∀ e ∈ c.plan.dependencies, e ∈ c.resolved)
  | removed (hs : c.state = .removed) (hc : c.callback = none)
    (hempty : ∀ l, c.plan.Binds l → cells.content? l = none)

/-- A turn of a service that fails to start. -/
structure Turn.Fails (f : Failure) (w : World) (c : Controller) (t : Turn) : Prop where
  controller : t.controller.Fails f t.world.cells
  requests : t.requests = []
  deferred : ∀ p work, t.deferred = some (p, work) →
    p = .start ∧ work.ending.outcome .start = .error f ∧ t.controller.state ≠ .waiting
  reported : ∀ r, t.reported = some r →
    ∃ value, r = .report c.plan.name t.controller.state value
  phase : c.state.phase ≤ t.controller.state.phase
  cells : Cells.Frame c.plan.Binds w.cells t.world.cells

namespace Controller

variable {f : Failure} {cells cells' : Cells} {c c' : Controller} {w : World}

namespace Fails

theorem not_started (h : c.Fails f cells) : c.state.phase ≠ 2 := by
  cases h with
  | offered _ hs | starting hs | stopping hs | removed hs => simp [hs, State.phase]

/-- Slots may change that are not the service's, except for their types. -/
theorem congr (h : c.Fails f cells) (hframe : Cells.Frame (fun _ => False) cells cells') :
    c.Fails f cells' := by
  cases h with
  | offered values hs hc hmem hone ho hcover =>
      exact .offered values hs hc hmem hone ((Plan.startOutcome?_congr hframe.type).trans ho) hcover
  | starting hs hc honly hcover => exact .starting hs hc honly hcover
  | stopping hs hc hcover => exact .stopping hs hc hcover
  | removed hs hc hempty =>
      exact .removed hs hc fun l hl => (hframe.content? id).trans (hempty l hl)

theorem noticed (h : c.Fails f cells) (hn : c.Noticed c') : c'.Fails f cells := by
  rcases hn with rfl | rfl
  · exact h
  · cases hk : c.callback with
    | none => rwa [alarm_of_idle hk]
    | some callback =>
        cases h with
        | starting hs hc honly hcover => exact .starting hs (Callback.Heads.alarm hc) honly hcover
        | offered _ _ hc | stopping _ hc | removed _ hc => simp [hk] at hc

/-- Until the start has failed, the service hears of nothing else. -/
theorem told (h : c.Fails f cells) {messages : List Message}
    (hm : c.state.phase ≤ 1 → ∀ e, .lifecycle e ∈ messages →
      c.state ≠ .waiting ∧ e = .startFailed f) : (c.told messages).Fails f cells := by
  have hplan := c.told_plan messages
  have hcallback := c.told_callback messages
  have hstate := c.told_state messages
  have hresolved : (c.told messages).resolved = c.resolved := by
    unfold Controller.told
    split <;> rfl
  have hinbox : ∀ {e}, .lifecycle e ∈ (c.told messages).inbox →
      .lifecycle e ∈ c.inbox ∨ .lifecycle e ∈ messages := by
    intro e he
    unfold Controller.told at he
    split at he
    · exact .inl he
    · exact List.mem_append.mp he
  have hkept : ∀ {m}, m ∈ c.inbox → m ∈ (c.told messages).inbox := by
    intro m hm
    unfold Controller.told
    split
    · exact hm
    · exact List.mem_append_left _ hm
  cases h with
  | offered values hs hc hmem hone ho hcover =>
      have hnone : messages.filterMap Message.signal? = [] := by
        refine List.eq_nil_iff_forall_not_mem.mpr fun x hx => ?_
        obtain ⟨message, hmessage, hsignal⟩ := List.mem_filterMap.mp hx
        cases message with
        | reference u => cases hsignal
        | lifecycle e => exact (hm (by simp [hs, State.phase]) e hmessage).1 hs
      refine .offered values (hstate.trans hs) (hcallback.trans hc) (hkept hmem) ?_ (hplan ▸ ho)
        (hplan ▸ hcover)
      rw [c.told_signals, hone, hnone, ite_self, List.append_nil]
  | starting hs hc honly hcover =>
      refine .starting (hstate.trans hs) (hcallback ▸ hc) (fun e he => ?_)
        (hplan ▸ hresolved ▸ hcover)
      rcases hinbox he with he | he
      · exact honly e he
      · exact (hm (by simp [hs, State.phase]) e he).2
  | stopping hs hc hcover =>
      exact .stopping (hstate.trans hs) (hcallback.trans hc) (hplan ▸ hresolved ▸ hcover)
  | removed hs hc hempty =>
      exact .removed (hstate.trans hs) (hcallback.trans hc) (hplan ▸ hempty)

/-- What the controller has before it, if it means something, is the next thing on its way. -/
theorem heeds (h : c.Fails f cells) {e : Event} {rest : List Message} {next : State}
    (hi : c.inbox = .lifecycle e :: rest)
    (hm : Moves c.interruptible c.state e.signal next c.effects) :
    (c.state = .waiting ∧ next = .starting false ∧ c.effects = [.injectAndStart]) ∨
      (c.state = .starting false ∧ e = .startFailed f ∧ next = .stopping ∧
        c.effects = [.failStart .failed, .emitStopped]) ∨
      (c.state = .stopping ∧ next = .removed ∧ c.effects = [.releaseInjected, .emitRemoved]) ∨
      (c.state = .removed ∧ next = .removed ∧ c.effects = [.terminate]) := by
  have hhead : .lifecycle e ∈ c.inbox := by simp [hi]
  generalize c.effects = effects at hm ⊢
  cases h with
  | offered values hs hc hmem hone ho hcover =>
      obtain ⟨hsignal, _⟩ : e.signal = .dependenciesAvailable ∧ _ := by
        simpa [c.signals_cons hi, Message.signal?] using hone
      rw [hs, hsignal] at hm
      cases hm with
      | start => exact .inl ⟨hs, rfl, rfl⟩
      | abort hx => simp [Signal.Stops] at hx
  | starting hs hc honly hcover =>
      obtain rfl := honly e hhead
      rw [hs] at hm
      generalize hsignal : (Event.startFailed f).signal = x at hm
      cases hm with
      | fail => exact .inr (.inl ⟨hs, rfl, rfl, rfl⟩)
      | complete => simp [Event.signal] at hsignal
      | cut asked hx | note asked hx => simp [← hsignal, Event.signal, Signal.Stops] at hx
  | stopping hs hc hcover =>
      rw [hs] at hm
      generalize e.signal = x at hm
      cases hm
      exact .inr (.inr (.inl ⟨hs, rfl, rfl⟩))
  | removed hs hc hempty =>
      rw [hs] at hm
      generalize e.signal = x at hm
      cases hm
      exact .inr (.inr (.inr ⟨hs, rfl, rfl⟩))

/-- From the start on until it is removed, the service knows all it depends on. -/
theorem resolved (h : c.Fails f cells) (hs : c.state = .starting false ∨ c.state = .stopping) :
    ∀ e ∈ c.plan.dependencies, e ∈ c.resolved := by
  cases h with
  | offered _ hs' | removed hs' => simp [hs'] at hs
  | starting _ _ _ hcover => exact hcover
  | stopping _ _ hcover => exact hcover

/-- Once the service is removed, its slots are empty. -/
theorem empty (h : c.Fails f cells) (hs : c.state = .removed) :
    ∀ l, c.plan.Binds l → cells.content? l = none := by
  cases h with
  | offered _ hs' | starting hs' | stopping hs' => simp [hs'] at hs
  | removed _ _ hempty => exact hempty

/-- Its `stop` is not called. -/
theorem isStop_of_effects (h : c.Fails f cells) {e : Effect} (he : e ∈ c.effects) :
    e.isStop = false := by
  obtain ⟨_, _, _, hi, hm⟩ := moves_of_effects he
  rcases h.heeds hi hm with ⟨_, _, hl⟩ | ⟨_, _, _, hl⟩ | ⟨_, _, hl⟩ | ⟨_, _, hl⟩ <;> rw [hl] at he <;>
    revert e <;> simp [Effect.isStop]

/-- What the installer is told is the cause of the failure. -/
theorem answer (h : c.Fails f cells) {o : Except Error Answer} (ha : c.answer? = some o) :
    o = .error (.startFailure c.plan.name f) := by
  obtain ⟨_, _, _, hi, hm, ha⟩ := moves_of_answer? ha
  rcases h.heeds hi hm with ⟨_, _, hl⟩ | ⟨_, rfl, _, hl⟩ | ⟨_, _, hl⟩ | ⟨_, _, hl⟩ <;> rw [hl] at ha
  · cases ha
  · exact (Option.some.inj ha).symm
  · cases ha
  · cases ha

/-! ### Turns -/

/-- A message that means nothing is only taken. -/
theorem skipped (h : c.Fails f w.cells) {t : Turn} {message : Message} {rest : List Message}
    (hi : c.inbox = message :: rest) (hno : ∀ x, message.signal? = some x → ¬c.Heeds x)
    (ht : Turn.Skipped w c rest t)
    (hframe : Cells.Frame (fun _ => False) w.cells t.world.cells) : t.Fails f w c := by
  refine ⟨?_, ht.requests, by simp [ht.deferred], by simp [ht.reported], ?_,
    hframe.mono fun _ => False.elim⟩
  · rw [ht.controller]
    refine congr ?_ hframe
    cases h with
    | offered values hs hc hmem hone ho hcover =>
        have hsilent : message.signal? = none := by
          cases hx : message.signal? with
          | none => rfl
          | some x =>
              obtain ⟨rfl, _⟩ : x = .dependenciesAvailable ∧ _ := by
                simpa [c.signals_cons hi, hx] using hone
              exact absurd (heeds_available hs) (hno _ hx)
        rw [c.signals_cons hi, hsilent] at hone
        refine .offered values hs hc ?_ hone ho hcover
        rw [hi] at hmem
        rcases List.mem_cons.mp hmem with rfl | hmem
        · cases hsilent
        · exact hmem
    | starting hs hc honly hcover =>
        exact .starting hs hc (fun e he => honly e (hi ▸ List.mem_cons_of_mem _ he)) hcover
    | stopping hs hc hcover => exact .stopping hs hc hcover
    | removed hs hc hempty => exact .removed hs hc hempty
  · simp [ht.controller]

open Turn in
/-- The service is started. -/
theorem starts (h : c.Fails f w.cells) {e : Event} {rest : List Message}
    (hi : c.inbox = .lifecycle e :: rest) (hs : c.state = .waiting)
    (hm : Moves c.interruptible c.state e.signal (.starting false) c.effects) (id : Nat)
    (ht : Moved w c rest (.starting false) c.effects (c.take id w)) :
    (c.take id w).controller.Fails f (c.take id w).world.cells ∧ (c.take id w).requests = [] ∧
      (∀ p work, (c.take id w).deferred = some (p, work) →
        p = .start ∧ work.ending.outcome .start = .error f ∧
          (c.take id w).controller.state ≠ .waiting) ∧
      Cells.Frame c.plan.Binds w.cells (c.take id w).world.cells := by
  cases h with
  | offered values _ hidle hmem hone ho hcover =>
      obtain ⟨hsignal, hrest⟩ : e.signal = .dependenciesAvailable ∧
          Controller.signals { c with inbox := rest } = [] := by
        simpa [c.signals_cons hi, Message.signal?] using hone
      have hnone : ∀ {e}, .lifecycle e ∉ rest := by
        intro e he
        have hx : e.signal ∈ Controller.signals { c with inbox := rest } :=
          List.mem_filterMap.mpr ⟨_, he, rfl⟩
        simp [hrest] at hx
      rw [hi] at hmem
      rcases List.mem_cons.mp hmem with he | hmem
      · obtain rfl := (Message.lifecycle.inj he).symm
        obtain ⟨_, _, hattempts⟩ := attempts_take hi hidle hm ho id
        refine ⟨.starting ht.state hattempts.nears.callback (fun e he => ?_) ?_,
          hattempts.requests, fun p work hd => ?_,
          hattempts.cells ▸ Turn.frame_inject c.plan values w.cells⟩
        · exact (hattempts.nears.events he).resolve_left hnone
        · rw [ht.plan, hattempts.resolved]
          exact hcover
        · obtain ⟨hp, hw⟩ := (hd ▸ hattempts.nears).work
          exact ⟨hp, hw, by simp [ht.state]⟩
      · exact absurd hmem hnone
  | starting hs' | stopping hs' | removed hs' => simp [hs'] at hs

open Turn in
theorem take (h : c.Fails f w.cells)
    (hneeded : ∀ {e l}, l ∈ c.plan.slotsOf e → e ∈ c.plan.dependencies) (hcan : c.canTake = true)
    (id : Nat) : (c.take id w).Fails f w c := by
  rcases Controller.take_cases hcan id w with ⟨message, rest, hi, hno, _, ht⟩ |
    ⟨e, rest, next, hi, hidle, hm, ht⟩
  · exact h.skipped hi hno ht (frame_take_of_unheeded hi hno id w)
  · have hreported : ∀ r, (c.take id w).reported = some r →
        ∃ value, r = .report c.plan.name (c.take id w).controller.state value := by
      intro r hr
      rw [ht.reported] at hr
      split at hr
      · cases hr
      · exact ⟨_, ht.state ▸ (Option.some.inj hr).symm⟩
    let t : Turn := .begin w { c with inbox := rest, state := next }
    have hbegin : t.Idle := ⟨hidle, rfl, rfl, rfl, rfl⟩
    have hclose : (c.effects.foldl (carryOut id e) t).Closes (c.take id w) :=
      take_eq hi hm id w ▸ closes_report _ _ _
    have hleft := ht.left
    rcases h.heeds hi hm with ⟨hs, rfl, hl⟩ | ⟨hs, rfl, rfl, hl⟩ | ⟨hs, rfl, hl⟩ | ⟨hs, rfl, hl⟩
    · obtain ⟨hc, hrequests, hdeferred, hcells⟩ := h.starts hi hs hm id ht
      exact ⟨hc, hrequests, hdeferred, hreported, by simp [hs, ht.state, State.phase], hcells⟩
    · have hquiet := (quiet_failStart t .failed (.startFailed f)).idle hbegin
      have hspares := spares_failStart t .failed (.startFailed f)
      rw [hl] at hclose hleft
      obtain ⟨_, hcallback, hdeferred⟩ := hleft
      refine ⟨.stopping ht.state hcallback ?_, hclose.requests.trans hquiet.requests,
        by simp [hdeferred], hreported, by simp [hs, ht.state, State.phase], .of_eq ?_⟩
      · rw [ht.plan, hclose.controller]
        exact fun e he => hspares.resolved ▸ h.resolved (.inl hs) e he
      · rw [hclose.world]
        exact failStart_cells t .failed (.startFailed f)
    · rw [hl] at hclose hleft
      obtain ⟨_, hcallback, hdeferred⟩ := hleft
      have hcells : (c.take id w).world.cells = c.plan.release c.resolved w.cells :=
        congrArg World.cells hclose.world
      refine ⟨.removed ht.state hcallback fun l hbinds => ?_, hclose.requests,
        by simp [hdeferred], hreported, by simp [hs, ht.state, State.phase], ?_⟩
      · obtain ⟨e, hlabel⟩ := hbinds
        rw [ht.plan] at hlabel
        rw [hcells, Plan.content?_release, if_pos ⟨e, h.resolved (.inr hs) e (hneeded hlabel), hlabel⟩]
      · rw [hcells]
        exact frame_releaseInjected t
    · rw [hl] at hclose hleft
      obtain ⟨_, hcallback, hdeferred⟩ := hleft
      have hcells : (c.take id w).world.cells = w.cells := congrArg World.cells hclose.world
      refine ⟨.removed ht.state hcallback ?_, hclose.requests, by simp [hdeferred], hreported,
        by simp [hs, ht.state, State.phase], .of_eq hcells⟩
      rw [ht.plan, hcells]
      exact h.empty hs

/-- A controller that has ended is removed. -/
theorem final {t : Turn} (h : t.controller.Fails f cells)
    (hr : t.controller.ended = true → t.controller.state = .removed) (task : Nat) :
    (t.final task).Fails f cells := by
  unfold Turn.final
  split
  · next hended =>
      cases h with
      | offered _ hs | starting hs | stopping hs => exact absurd (hr hended) (by simp [hs])
      | removed hs hc hempty => exact .removed hs hc hempty
  · split
    · exact h
    · cases h with
      | offered values hs hc hmem hone ho hcover => exact .offered values hs hc hmem hone ho hcover
      | starting hs hc honly hcover => exact .starting hs hc honly hcover
      | stopping hs hc hcover => exact .stopping hs hc hcover
      | removed hs hc hempty => exact .removed hs hc hempty

theorem resume (h : c.Fails f w.cells) {callback : Callback}
    {answer : Option (Awaited × Except Error Answer)}
    (hwake : c.wakeUp? w = some (callback, answer)) (id : Nat) : (c.resume id w).Fails f w c := by
  have hcallback := callback_of_wakeUp? hwake
  have ht := resume_resumed hwake id
  cases h with
  | offered _ _ hc | stopping _ hc | removed _ hc => simp [hc] at hcallback
  | starting hs hc honly hcover =>
      have hattempts := attempts_resume hwake (hc callback hcallback) id
      have hstate := ht.alike.state
      refine ⟨.starting (hstate.trans hs) hattempts.nears.callback (fun e he => ?_) ?_,
        hattempts.requests, fun p work hd => ?_, fun r hr => ?_, hstate ▸ Nat.le_refl _,
        .of_eq hattempts.cells⟩
      · exact (hattempts.nears.events he).elim (honly e) fun h => h
      · rw [ht.alike.plan, hattempts.resolved]
        exact hcover
      · obtain ⟨hp, hw⟩ := (hd ▸ hattempts.nears).work
        exact ⟨hp, hw, by simp [hstate, hs]⟩
      · rw [ht.reported] at hr
        split at hr
        · cases hr
        · exact ⟨_, hstate.symm ▸ (Option.some.inj hr).symm⟩

end Fails

end Controller

/-! ## Whoever waits for it -/

/-- Whoever has no signal before it only takes a message. -/
theorem Controller.take_silent {c : Controller} (h : c.signals = []) (hcan : c.canTake = true)
    (id : Nat) (w : World) : ∃ rest, Turn.Skipped w c rest (c.take id w) ∧
      (c.take id w).controller.signals = [] ∧
      Cells.Frame (fun _ => False) w.cells (c.take id w).world.cells := by
  rcases c.take_cases hcan id w with ⟨message, rest, hi, hno, _, ht⟩ | ⟨e, rest, _, hi, _⟩
  · refine ⟨rest, ht, ?_, frame_take_of_unheeded hi hno id w⟩
    rw [c.signals_cons hi] at h
    rw [ht.controller]
    exact (List.append_eq_nil_iff.mp h).2
  · simp [c.signals_cons hi, Message.signal?] at h

/-- A service that waits, or was removed while it waited. -/
structure Controller.Aborts (c : Controller) : Prop where
  state : c.state = .waiting ∨ c.state = .removed
  idle : c.callback = none
  unoffered : .dependenciesAvailable ∉ c.signals

/-- A turn of a service that does not start any more. -/
structure Turn.Aborts (w : World) (c : Controller) (t : Turn) : Prop where
  controller : t.controller.Aborts
  requests : t.requests = []
  deferred : t.deferred = none
  reported : ∀ r, t.reported = some r → ∃ value, r = .report c.plan.name .removed value
  cells : Cells.Frame (fun _ => False) w.cells t.world.cells

namespace Controller

variable {c c' : Controller} {w : World}

namespace Aborts

theorem told (h : c.Aborts) {messages : List Message}
    (hm : .dependenciesAvailable ∉ messages.filterMap Message.signal?) :
    (c.told messages).Aborts := by
  refine ⟨c.told_state messages ▸ h.state, (c.told_callback messages).trans h.idle, ?_⟩
  rw [c.told_signals, List.mem_append, not_or]
  refine ⟨h.unoffered, ?_⟩
  split
  · exact List.not_mem_nil
  · exact hm

theorem noticed (h : c.Aborts) (hn : c.Noticed c') : c'.Aborts := by
  rcases hn with rfl | rfl
  · exact h
  · rwa [alarm_of_idle h.idle]

theorem final {t : Turn} (h : t.controller.Aborts) (hd : t.deferred = none) (task : Nat) :
    (t.final task).Aborts := by
  unfold Turn.final
  split
  · exact ⟨h.state, h.idle, List.not_mem_nil⟩
  · rwa [hd]

/-- Such a service moves by being removed, or by coming to its end. -/
theorem heeds (h : c.Aborts) {e : Event} {rest : List Message} {next : State}
    (hi : c.inbox = .lifecycle e :: rest)
    (hm : Moves c.interruptible c.state e.signal next c.effects) :
    next = .removed ∧ ((c.state = .waiting ∧ c.effects = [.failStart .interrupted, .emitRemoved]) ∨
      (c.state = .removed ∧ c.effects = [.terminate])) := by
  have hsignal : e.signal ≠ .dependenciesAvailable := by
    rintro he
    refine h.unoffered ?_
    rw [c.signals_cons hi]
    simp [Message.signal?, he]
  generalize c.effects = effects at hm ⊢
  generalize e.signal = x at hm hsignal
  rcases h.state with hs | hs <;> rw [hs] at hm
  · cases hm with
    | start => exact absurd rfl hsignal
    | abort => exact ⟨rfl, .inl ⟨hs, rfl⟩⟩
  · cases hm
    exact ⟨rfl, .inr ⟨hs, rfl⟩⟩

open Turn in
theorem take (h : c.Aborts) (hcan : c.canTake = true) (id : Nat) :
    (c.take id w).Aborts w c := by
  rcases Controller.take_cases hcan id w with ⟨message, rest, hi, hno, _, ht⟩ |
    ⟨e, rest, next, hi, hidle, hm, ht⟩
  · refine ⟨?_, ht.requests, ht.deferred, by simp [ht.reported],
      frame_take_of_unheeded hi hno id w⟩
    rw [ht.controller]
    refine ⟨h.state, h.idle, fun hx => h.unoffered ?_⟩
    rw [c.signals_cons hi]
    exact List.mem_append_right _ hx
  · have hreported : ∀ r, (c.take id w).reported = some r →
        ∃ value, r = .report c.plan.name next value := by
      intro r hr
      rw [ht.reported] at hr
      split at hr
      · cases hr
      · exact ⟨_, (Option.some.inj hr).symm⟩
    let t : Turn := .begin w { c with inbox := rest, state := next }
    have hclose : (c.effects.foldl (carryOut id e) t).Closes (c.take id w) :=
      take_eq hi hm id w ▸ closes_report _ _ _
    have hleft := ht.left
    have hrest : ∀ {events : List Event}, (∀ e ∈ events, e.signal ≠ .dependenciesAvailable) →
        (c.take id w).controller.inbox = rest ++ events.map .lifecycle →
        .dependenciesAvailable ∉ (c.take id w).controller.signals := by
      intro events hevents hinbox hx
      rw [Controller.signals, hinbox, List.filterMap_append, List.mem_append] at hx
      rcases hx with hx | hx
      · refine h.unoffered ?_
        rw [c.signals_cons hi]
        exact List.mem_append_right _ hx
      · simp only [List.filterMap_map, List.mem_filterMap, Function.comp_apply] at hx
        obtain ⟨e, he, hsignal⟩ := hx
        exact hevents e he (Option.some.inj hsignal)
    obtain ⟨rfl, ⟨hs, hl⟩ | ⟨hs, hl⟩⟩ := h.heeds hi hm
    · have hquiet := (quiet_failStart t .interrupted e).idle ⟨hidle, rfl, rfl, rfl, rfl⟩
      rw [hl] at hclose hleft
      obtain ⟨hinbox, hcallback, hdeferred⟩ := hleft
      refine ⟨⟨.inr ht.state, hcallback, hrest (by simp [Effect.emit?, Event.signal]) hinbox⟩,
        hclose.requests.trans hquiet.requests, hdeferred, hreported, .of_eq ?_⟩
      rw [hclose.world]
      exact failStart_cells t .interrupted e
    · rw [hl] at hclose hleft
      obtain ⟨hinbox, hcallback, hdeferred⟩ := hleft
      exact ⟨⟨.inr ht.state, hcallback, hrest (by simp [Effect.emit?]) hinbox⟩, hclose.requests,
        hdeferred, hreported, .of_eq (congrArg World.cells hclose.world)⟩

/-- Whoever is stopped while it waits tells its installer so. -/
theorem answer (h : c.Aborts) {o : Except Error Answer} (ha : c.answer? = some o) :
    o = .error (.interrupted c.plan.name) := by
  obtain ⟨_, _, _, hi, hm, ha⟩ := moves_of_answer? ha
  rcases h.heeds hi hm with ⟨_, ⟨_, hl⟩ | ⟨_, hl⟩⟩ <;> rw [hl] at ha
  · exact (Option.some.inj ha).symm
  · cases ha

end Aborts

end Controller

end ServiceHost
