import ServiceHost.Proofs.System.Beginnings
import ServiceHost.Proofs.System.Cells
import ServiceHost.Proofs.System.Interruptions
import ServiceHost.Proofs.System.Invocations

/-! # Composites take their children with them

A composite does everything at once: its start never fails, and when it stops it asks for the
removal of its children. So none of them is left once it is removed, if its start had begun. A
composite that is removed while it waits does not stop, and leaves its children as they are. -/

namespace ServiceHost

open ServiceHost.Graph (Trial TrialStep)

/-! ## What composites do -/

namespace Turn

/-- The turn of a composite: it has nothing under way, it does not hear from itself that its start
failed, and it asks for the removal of its children if it stops. -/
structure Prompt (children : List Name) (effects : List Effect) (t t' : Turn) : Prop where
  callback : t'.controller.callback = none
  deferred : t'.deferred = none
  signals : ∀ x ∈ t'.controller.signals, x ∈ t.controller.signals ∨ x ≠ .startFailed
  asked : effects.any Effect.isStop = true → ∀ child ∈ children, ∃ k, .remove child k ∈ t'.requests

variable {t t' : Turn} {children : List Name} {effects : List Effect}

theorem Prompt.of_quiet (h : t.Quiet t') (hid : t.Idle) (hno : effects.any Effect.isStop = false) :
    t.Prompt children effects t' := by
  refine ⟨(h.idle hid).callback, (h.idle hid).deferred, fun x hx => .inl ?_, fun he => ?_⟩
  · rwa [Controller.signals, h.inbox] at hx
  · simp [hno] at he

theorem Prompt.emit (h : t.Prompt children effects t') {e : Event} (he : e.signal ≠ .startFailed) :
    t.Prompt children effects (t'.emit e) := by
  refine ⟨h.callback, h.deferred, fun x hx => ?_, h.asked⟩
  have hx : x ∈ t'.controller.signals ++ [e.signal] := by
    simpa [Turn.emit, Controller.signals, Message.signal?] using hx
  rcases List.mem_append.mp hx with hx | hx
  · exact h.signals x hx
  · exact .inr (List.mem_singleton.mp hx ▸ he)

/-- What a composite asks for when it stops. -/
theorem mem_removals (children : List Name) (p : Progress) :
    (∀ r ∈ p.requests, r ∈ (children.foldl
      (fun p child => (p.ask none (.remove child)).2) p).requests) ∧
    ∀ child ∈ children, ∃ k, .remove child k ∈ (children.foldl
      (fun p child => (p.ask none (.remove child)).2) p).requests := by
  induction children generalizing p with
  | nil => simp
  | cons a children ih =>
      obtain ⟨hkept, hasked⟩ := ih (p.ask none (.remove a)).2
      refine ⟨fun r hr => hkept r (List.mem_append_left _ hr), fun child hchild => ?_⟩
      rcases List.mem_cons.mp hchild with rfl | hchild
      · exact ⟨_, hkept _ (List.mem_append_right _ List.mem_cons_self)⟩
      · exact hasked child hchild

theorem prompt_invokeStop (h : t.Quiet t') (hid : t.Idle) (id : Nat) (interrupted : Bool)
    (hconduct : t.controller.plan.conduct = .composite children) :
    t.Prompt children effects (t'.invokeStop id interrupted) := by
  have hid' := h.idle hid
  have hconduct : t'.controller.plan.conduct = .composite children :=
    (congrArg Plan.conduct h.plan).trans hconduct
  let p : Progress := children.foldl (fun p child => (p.ask none (.remove child)).2) (.begin t'.world)
  have hstop : t.Prompt children effects
      { t' with
        world := p.world, requests := t'.requests ++ p.requests
        calledOff := t'.controller.pending
        controller := { t'.controller with pending := none } } := by
    refine ⟨hid'.callback, hid'.deferred, fun x hx => .inl ?_, fun _ child hchild => ?_⟩
    · rwa [Controller.signals, h.inbox] at hx
    · obtain ⟨k, hk⟩ := (mem_removals children (.begin t'.world)).2 child hchild
      exact ⟨k, List.mem_append_right _ hk⟩
  unfold invokeStop callStop
  simp only [hconduct]
  exact hstop.emit (e := .stopped) (by simp [Event.signal])

theorem inject_of_not_binds {plan : Plan} (h : ∀ l, ¬plan.Binds l) (cells : Cells)
    (values : List (Name × Value)) : inject plan cells values = (cells, .ok ()) := by
  induction values with
  | nil => rfl
  | cons p values ih =>
      have hnil : plan.slotsOf p.1 = [] :=
        List.eq_nil_iff_forall_not_mem.mpr fun l hl => h l ⟨p.1, hl⟩
      simpa [inject, hnil, Cells.inject] using ih

/-- The effects of a move, as a composite carries them out. -/
theorem prompt_foldl (t : Turn) (id : Nat) {event : Event} {state next : State}
    {interruptible : Bool} (h : Moves interruptible state event.signal next effects) (hid : t.Idle)
    (hconduct : t.controller.plan.conduct = .composite children)
    (hbinds : ∀ l, ¬t.controller.plan.Binds l) :
    t.Prompt children effects (effects.foldl (carryOut id event) t) := by
  have hquiet {why : StartAbort} {effects : List Effect}
      (hno : effects.any Effect.isStop = false) :
      t.Prompt children effects (t.failStart why event) :=
    .of_quiet (quiet_failStart t why event) hid hno
  generalize hx : event.signal = x at h
  cases h with
  | start =>
      obtain ⟨values, rfl⟩ : ∃ values, event = .dependenciesAvailable values := by
        cases event <;> simp_all [Event.signal]
      have hstart : t.Prompt children [.injectAndStart]
          { t with controller := { t.controller with resolved := values.map Prod.fst } } :=
        ⟨hid.callback, hid.deferred, fun x hx => .inl hx, by simp [Effect.isStop]⟩
      simp only [List.foldl_cons, List.foldl_nil, carryOut, injectAndStart,
        inject_of_not_binds hbinds, callStart, hconduct]
      exact hstart.emit (e := .started) (by simp [Event.signal])
  | abort _ => exact (hquiet (by simp [Effect.isStop])).emit (by simp [Event.signal])
  | complete => exact .of_quiet (quiet_completeStart t) hid (by simp [Effect.isStop])
  | fail asked => exact (hquiet (by simp [Effect.isStop])).emit (by simp [Event.signal])
  | late => exact prompt_invokeStop (quiet_failStart t _ event) hid id false hconduct
  | cut asked _ _ => exact prompt_invokeStop (quiet_failStart t _ event) hid id true hconduct
  | release => exact prompt_invokeStop (.refl t) hid id false hconduct
  | note _ _ _ | drain _ => exact .of_quiet (.refl t) hid (by simp)
  | vanish =>
      exact (Prompt.of_quiet (quiet_releaseInjected t) hid (by simp [Effect.isStop])).emit
        (by simp [Event.signal])
  | last => exact ⟨hid.callback, hid.deferred, fun x hx => .inl hx, by simp [Effect.isStop]⟩

end Turn

namespace Controller

variable {c : Controller} {children : List Name}

open Turn in
theorem prompt_take (h : c.canTake = true) (hconduct : c.plan.conduct = .composite children)
    (hbinds : ∀ l, ¬c.plan.Binds l) (id : Nat) (w : World) :
    Prompt children c.effects (.begin w c) (c.take id w) := by
  rcases take_cases h id w with
    ⟨message, rest, hi, _, hnone, ht⟩ | ⟨e, rest, next, hi, hcallback, hm, _⟩
  · have hcallback : c.callback = none := by
      simp only [canTake, Bool.and_eq_true, Option.isNone_iff_eq_none] at h
      exact h.1.2
    refine ⟨by rw [ht.controller, hcallback], ht.deferred, fun x hx => .inl ?_, by simp [hnone]⟩
    rw [ht.controller] at hx
    exact List.filterMap_subset _ (hi ▸ List.subset_cons_self _ _) hx
  · rw [take_eq hi hm]
    have hprompt := prompt_foldl (.begin w { c with inbox := rest, state := next }) id hm
      ⟨hcallback, rfl, rfl, rfl, rfl⟩ hconduct hbinds
    have hback : ∀ x ∈ rest.filterMap Message.signal?, x ∈ c.signals := fun x hx =>
      List.filterMap_subset _ (hi ▸ List.subset_cons_self _ _) hx
    dsimp only
    split
    all_goals exact ⟨hprompt.callback, hprompt.deferred,
      fun x hx => (hprompt.signals x hx).imp_left (hback x), hprompt.asked⟩

/-- A controller has nothing under way, and is not to hear that its start failed. -/
structure Unfailing (c : Controller) : Prop where
  idle : c.callback = none
  unfailing : .startFailed ∉ c.signals

theorem Unfailing.told (h : c.Unfailing) {messages : List Message}
    (hm : ∀ x ∈ messages.filterMap Message.signal?, ¬x.Own) : (c.told messages).Unfailing := by
  refine ⟨(c.told_callback messages).trans h.idle, ?_⟩
  rw [c.told_signals, List.mem_append, not_or]
  refine ⟨h.unfailing, fun hmem => ?_⟩
  split at hmem
  · cases hmem
  · exact hm _ hmem (.inr (.inl rfl))

theorem Unfailing.take (h : c.Unfailing) (hcan : c.canTake = true)
    (hconduct : c.plan.conduct = .composite children) (hbinds : ∀ l, ¬c.plan.Binds l)
    (id task : Nat) (w : World) : ((c.take id w).final task).Unfailing := by
  have hprompt := prompt_take hcan hconduct hbinds id w
  refine ⟨(Turn.final_callback _ _).trans hprompt.callback, fun hmem => ?_⟩
  rw [signals, Turn.final_inbox] at hmem
  split at hmem
  · cases hmem
  · exact (hprompt.signals _ hmem).elim h.unfailing fun hne => hne rfl

theorem Unfailing.not_failed (h : c.Unfailing) : .failStart .failed ∉ c.effects := by
  intro he
  obtain ⟨e, rest, next, hi, hm⟩ := moves_of_effects he
  have hne : e.signal ≠ .startFailed := fun hx =>
    h.unfailing (by simp [signals_cons hi, hx, Message.signal?])
  generalize c.effects = effects at hm he
  generalize c.state = state at hm
  generalize c.interruptible = interruptible at hm
  generalize e.signal = x at hm hne
  cases hm <;> simp at he hne

end Controller

/-! ## Dismissals -/

/-- Whoever is installed under a name is about to stop, unless it was installed after a given one. -/
def Graph.Quits (g : Graph) (a : Name) (i : Inbox) : Prop :=
  ∀ n, g.nodes[a]? = some n → n.stopping = true ∨ i < n.inbox

theorem Graph.Trial.Sound.quits_next {t : Trial} {step : TrialStep} {a : Name} {i : Inbox}
    (ht : t.Sound) (hi : i < t.inboxes.length) (h : t.graph.Quits a i ∨ step.Stops a) :
    (t.next step).graph.Quits a i := by
  have hspec := Trial.stepSpec ht step
  intro n' hn'
  cases hn : t.graph.nodes[a]? with
  | none => exact .inr ((hspec.new hn hn').1.symm ▸ hi)
  | some n =>
      by_cases hr : step.Removes a
      · simp [hspec.gone hr] at hn'
      · obtain ⟨k, hk, hs⟩ := hspec.survives hn hr
        obtain rfl := Option.some.inj (hk.symm.trans hn')
        rw [hs.stopping, hs.inbox]
        rcases h with h | hstop
        · exact (h n hn).imp_left .inl
        · exact .inl (.inr hstop)

theorem Graph.Trial.Sound.quits_foldl {t : Trial} {a : Name} {i : Inbox} (ht : t.Sound)
    (hi : i < t.inboxes.length) (h : t.graph.Quits a i) (steps : List TrialStep) :
    (steps.foldl Trial.next t).graph.Quits a i := by
  induction steps generalizing t with
  | nil => exact h
  | cons step steps ih =>
      have hspec := Trial.stepSpec ht step
      exact ih hspec.sound (Nat.lt_of_lt_of_le hi hspec.grows) (ht.quits_next hi (.inl h))

namespace System

variable {s s' : System} {x : Stimulus} {happened : List Stimulus} {i : Nat} {c : Controller}
  {a : Name} {children : List Name}

/-- Whoever is installed under a name is about to stop, or to be asked to, unless it was installed
after a given one. -/
def Dismisses (s : System) (a : Name) (i : Nat) : Prop :=
  (∃ k, .remove a k ∈ s.container.inbox) ∨ s.container.graph.Quits a i

theorem Dismisses.receive (h : s.Dismisses a i) (ho : s.Orderly) (hi : i < s.controllers.length)
    {r : Request} {rest : List Request} (hserving : s.container.isServing = true)
    (hinbox : s.container.inbox = r :: rest) : s.receive.Dismisses a i := by
  have hlen : i < s.trial.inboxes.length := by simpa [trial] using hi
  have hsound := ho.sound s.mirrors_trial
  have hmirrors := (s.mirrors_trial.receive hinbox).1
  rcases h with ⟨k, hk⟩ | hq
  · rcases List.mem_cons.mp (hinbox ▸ hk) with rfl | hk
    · -- this is the request: whoever has the name now is asked to stop
      exact .inr (hmirrors.graph ▸ hsound.quits_next hlen (.inr rfl))
    · -- the request stays where it is, unless the container closes, and has nothing installed then
      rcases ho.receive_inbox hserving hinbox with he | ⟨_, hs⟩
      · exact .inl ⟨k, he ▸ hk⟩
      · have ho' := ho.step (.received r rest hserving hinbox)
        exact .inr fun n hn => by simp [(ho'.unserved hs).1] at hn
  · exact .inr (hmirrors.graph ▸ hsound.quits_foldl hlen hq _)

theorem Dismisses.step (h : s.Dismisses a i) (ho : s.Orderly) (hi : i < s.controllers.length)
    (hs : Step s x s') : s'.Dismisses a i := by
  rcases container_cases hs with ⟨out, hc⟩ | ⟨_, hc⟩ | ⟨r, rest, hserving, hinbox, rfl⟩ | ⟨_, hc⟩
  · unfold Dismisses
    rw [hc, sent_graph]
    refine h.imp_left fun ⟨k, hk⟩ => ⟨k, ?_⟩
    unfold Container.sent
    split
    · exact List.mem_append_left _ hk
    · exact hk
  · unfold Dismisses
    rw [hc]
    exact h
  · exact h.receive ho hi hserving hinbox
  · unfold Dismisses
    rw [hc]
    exact h

/-- What a controller asks for in a turn is in the inbox of the container, or nothing is installed. -/
theorem Orderly.dismisses_turn (ho : s.Orderly) (hi : i < s.controllers.length) {t : Turn}
    {k : Ticket} (hk : .remove a k ∈ t.requests) : (s.applyTurn i t).Dismisses a i := by
  have hcontainer := (applies_applyTurn (t := t) hi).container
  unfold Dismisses
  rw [hcontainer, sent_graph]
  by_cases hs : s.container.isServing = true
  · rw [Container.sent, if_pos hs]
    exact .inl ⟨k, List.mem_append_right _ (List.mem_append_left _ hk)⟩
  · exact .inr fun n hn => by simp [(ho.unserved (by simpa using hs)).1] at hn

/-! ## Runs -/

/-- A composite has nothing under way, and its start never fails. -/
theorem unfailing_run (hx : ∀ x ∈ happened, x ≠ .cancel)
    (hc : (initial.run happened).controllers[i]? = some c)
    (hconduct : c.plan.conduct = .composite children) :
    c.Unfailing ∧ (∀ task ∈ (initial.run happened).tasks, task.owner ≠ i) ∧
      .failStart .failed ∉ initial.trace happened i := by
  refine run_induction (P := fun happened => (∀ x ∈ happened, x ≠ .cancel) →
    ∀ {c : Controller}, (initial.run happened).controllers[i]? = some c →
      c.plan.conduct = .composite children →
      c.Unfailing ∧ (∀ task ∈ (initial.run happened).tasks, task.owner ≠ i) ∧
        .failStart .failed ∉ initial.trace happened i) ?_ ?_ hx hx hc hconduct
  · intro _ c hc
    simp [initial, run] at hc
  · intro happened x ho hs h hx c' hc' hconduct
    have hxb : ∀ y ∈ happened, y ≠ .cancel := fun y hy => hx y (List.mem_append_left _ hy)
    have hready := ready_run hxb
    have hhandled := ho.handled hs (run_snoc ..).symm
    -- a composite that was there before was unfailing then
    have hold : ∀ {b}, (initial.run happened).controllers[i]? = some b →
        b.plan.conduct = .composite children ∧ b.Unfailing ∧
          (∀ task ∈ (initial.run happened).tasks, task.owner ≠ i) ∧
          .failStart .failed ∉ initial.trace happened i := by
      intro b hb
      have hconduct : b.plan.conduct = .composite children := hhandled.plan hb hc' ▸ hconduct
      exact ⟨hconduct, h hxb hb hconduct⟩
    have hfree : ∀ task ∈ (initial.run happened).tasks, task.owner ≠ i := by
      intro task htask he
      obtain ⟨b, hb⟩ := Option.isSome_iff_exists.mp (by simpa [he] using owner_lt_run hxb task htask :
        (initial.run happened).controllers[i]?.isSome = true)
      exact (hold hb).2.2.1 task htask he
    have hfailed : .failStart .failed ∉ initial.trace (happened ++ [x]) i := by
      rw [trace_snoc, List.mem_append, not_or]
      refine ⟨fun he => ?_, fun he => ?_⟩
      · obtain ⟨b, hb⟩ := exists_of_mem_trace hxb he
        exact (hold hb).2.2.2 he
      · obtain ⟨b, _, hb, _, he, _⟩ := take_of_effects he
        exact (hold hb).2.1.not_failed he
    cases ho.idles hs hc' (fun b hb => (hold hb).2.1.idle) hfree with
    | @told b messages hb hc' hm hfree' =>
        refine ⟨hc' ▸ Controller.Unfailing.told ?_ hm, hfree', hfailed⟩
        rcases hb with hb | ⟨plan, ticket, rfl⟩
        · exact (hold hb).2.1
        · exact ⟨rfl, by simp [Controller.launch, Controller.signals]⟩
    | @takes b hx hb hcan hc' hfree' =>
        obtain ⟨hconduct, hunfailing, -⟩ := hold hb
        have hbinds := ((hready.plans hb).unit hconduct).2.1
        exact ⟨hc' ▸ hunfailing.take hcan hconduct hbinds i _ _,
          hfree' (Controller.prompt_take hcan hconduct hbinds i _).deferred, hfailed⟩

/-- A composite that was removed once its start had begun was stopped. -/
theorem isStop_of_removed (hx : ∀ x ∈ happened, x ≠ .cancel)
    (hc : (initial.run happened).controllers[i]? = some c)
    (hconduct : c.plan.conduct = .composite children) (hr : c.state = .removed)
    (hstart : .injectAndStart ∈ initial.trace happened i) :
    ∃ e ∈ initial.trace happened i, e.isStop = true := by
  have hcount := stopped_of_removed hx
    (fun hc' => Option.some.inj (hc.symm.trans hc') ▸ hr) hstart (unfailing_run hx hc hconduct).2.2
  exact List.countP_pos_iff.mp (hcount ▸ Nat.one_pos)

/-- Once a composite was stopped, its children are dismissed. -/
theorem dismisses_run (hx : ∀ x ∈ happened, x ≠ .cancel)
    (hc : (initial.run happened).controllers[i]? = some c)
    (hconduct : c.plan.conduct = .composite children)
    (hstop : ∃ e ∈ initial.trace happened i, e.isStop = true) :
    ∀ child ∈ children, (initial.run happened).Dismisses child i := by
  refine run_induction (P := fun happened => (∀ x ∈ happened, x ≠ .cancel) →
    ∀ {c : Controller}, (initial.run happened).controllers[i]? = some c →
      c.plan.conduct = .composite children → (∃ e ∈ initial.trace happened i, e.isStop = true) →
      ∀ child ∈ children, (initial.run happened).Dismisses child i) ?_ ?_ hx hx hc hconduct hstop
  · intro _ c hc
    simp [initial, run] at hc
  · intro happened x ho hs h hx c' hc' hconduct hstop child hchild
    have hxb : ∀ y ∈ happened, y ≠ .cancel := fun y hy => hx y (List.mem_append_left _ hy)
    have hhandled := ho.handled hs (run_snoc ..).symm
    have hplan : ∀ {b}, (initial.run happened).controllers[i]? = some b →
        b.plan.conduct = .composite children := fun hb => hhandled.plan hb hc' ▸ hconduct
    obtain ⟨e, he, hstop⟩ := hstop
    rw [trace_snoc, List.mem_append] at he
    rcases he with he | he
    · obtain ⟨b, hb⟩ := exists_of_mem_trace hxb he
      exact (h hxb hb (hplan hb) ⟨e, he, hstop⟩ child hchild).step ho
        (List.getElem?_eq_some_iff.mp hb).1 hs
    · obtain ⟨b, -, hb, hcan, he, happly⟩ := take_of_effects he
      have hbinds := (((ready_run hxb).plans hb).unit (hplan hb)).2.1
      have hprompt := Controller.prompt_take hcan (hplan hb) hbinds i (initial.run happened).world
      obtain ⟨k, hk⟩ := hprompt.asked (List.any_eq_true.mpr ⟨e, he, hstop⟩) child hchild
      rw [run_snoc, happly]
      exact ho.dismisses_turn (List.getElem?_eq_some_iff.mp hb).1 hk

/-- Whoever is installed under the name of a child of a removed composite was installed later. -/
theorem lt_of_child (hx : ∀ x ∈ happened, x ≠ .cancel) (hs : (initial.run happened).Settled)
    (hc : (initial.run happened).controllers[i]? = some c)
    (hconduct : c.plan.conduct = .composite children) (hr : c.state = .removed)
    (hstart : .injectAndStart ∈ initial.trace happened i) {child : Name} (hchild : child ∈ children)
    {n : Node} (hn : (initial.run happened).container.graph.nodes[child]? = some n) :
    i < n.inbox := by
  have hstop := isStop_of_removed hx hc hconduct hr hstart
  obtain ⟨b, hb, -, -, hstays, -⟩ := ((orderly_run hx).steady hs).installed hn
  rcases dismisses_run hx hc hconduct hstop child hchild with ⟨k, hk⟩ | hquits
  · simp [hs.requests] at hk
  · exact (hquits n hn).resolve_left (by simp [hstays])

/-! ## What is left of a composite -/

/-- A service is installed, in a container that still serves. -/
def HasService (s : System) (name : Name) : Prop :=
  s.container.isServing = true ∧ s.container.graph.contains name = true

instance (s : System) (name : Name) : Decidable (s.HasService name) :=
  inferInstanceAs (Decidable (_ ∧ _))

/-- Once a composite is removed and nothing is under way, none of its children is installed, if its
start had begun and nothing was installed under the name of a child later. -/
theorem childless_of_removed (hs : (initial.run happened).Settled)
    (hforce : (initial.run happened).canMove .force = false)
    (hc : (initial.run happened).controllers[i]? = some c)
    (hconduct : c.plan.conduct = .composite children) (hr : c.state = .removed)
    (hstart : .injectAndStart ∈ initial.trace happened i)
    (hlast : ∀ j > i, ∀ b : Controller, (initial.run happened).controllers[j]? = some b →
      b.plan.name ∉ children) :
    ∀ child ∈ children, ¬(initial.run happened).HasService child := by
  rintro child hchild ⟨hserving, hinstalled⟩
  -- a container that was told to stop and has noticed does not serve
  have hx : ∀ x ∈ happened, x ≠ .cancel := by
    refine not_cancel_of_uncancelled (s := initial) ?_
    simpa [canMove, hserving] using hforce
  rw [Graph.contains_eq, Option.isSome_iff_exists] at hinstalled
  obtain ⟨n, hn⟩ := hinstalled
  obtain ⟨b, hb, hname, -⟩ := ((orderly_run hx).steady hs).installed hn
  exact hlast n.inbox (lt_of_child hx hs hc hconduct hr hstart hchild hn) b hb (hname ▸ hchild)

/-- The children of a composite. -/
def children? : Conduct → Option (List Name)
  | .composite children => some children
  | .plain | .scripted .. => none

theorem eq_of_children? {conduct : Conduct} {children : List Name}
    (h : children? conduct = some children) : conduct = .composite children := by
  cases conduct with
  | composite l => exact congrArg Conduct.composite (Option.some.inj h)
  | plain | scripted => cases h

/-- A composite with one child. -/
def unitWithChild (needs : List Name) : Composite :=
  { name := "unit", dependencies := needs, children := [⟨none, plainService "child" []⟩] }

theorem forall_later {P : Controller → Prop} (h : s.controllers.length ≤ i + 1) :
    ∀ j > i, ∀ b : Controller, s.controllers[j]? = some b → P b := by
  intro j hj b hb
  have hlt := (List.getElem?_eq_some_iff.mp hb).1
  omega

/-- A composite is started, and then removed. -/
def unitStops : List Stimulus :=
  [.request (.request 0) .start, .request (.request 1) (.composite (unitWithChild []))] ++
  turns 6 2 ++ .request (.request 2) (.remove "unit") :: turns 10 2

theorem childless_unitStops : (initial.run unitStops).Settled ∧
    (initial.run unitStops).canMove .force = false ∧
    ∃ c, (initial.run unitStops).controllers[1]? = some c ∧
      c.plan.conduct = .composite ["child"] ∧ c.state = .removed ∧
      .injectAndStart ∈ initial.trace unitStops 1 ∧
      (∀ j > 1, ∀ b : Controller, (initial.run unitStops).controllers[j]? = some b →
        b.plan.name ∉ ["child"]) ∧
      ∀ child ∈ ["child"], ¬(initial.run unitStops).HasService child := by
  have hs : (initial.run unitStops).Settled := by decide +kernel
  have hforce : (initial.run unitStops).canMove .force = false := by decide +kernel
  have hunit : (initial.run unitStops).controllers[1]?.map
      (fun c => (c.state, children? c.plan.conduct)) = some (.removed, some ["child"]) := by
    decide +kernel
  obtain ⟨c, hc, he⟩ := Option.map_eq_some_iff.mp hunit
  obtain ⟨hr, hchildren⟩ := Prod.mk.inj he
  have hconduct := eq_of_children? hchildren
  have hstart : .injectAndStart ∈ initial.trace unitStops 1 := by decide +kernel
  have hlast : ∀ j > 1, ∀ b : Controller, (initial.run unitStops).controllers[j]? = some b →
      b.plan.name ∉ ["child"] := forall_later (by decide +kernel)
  exact ⟨hs, hforce, c, hc, hconduct, hr, hstart, hlast,
    childless_of_removed hs hforce hc hconduct hr hstart hlast⟩

/-- A composite that is removed while it waits leaves its children. -/
theorem not_childless_of_waiting : ¬∀ (happened : List Stimulus) (i : Nat) (c : Controller)
    (children : List Name), (initial.run happened).Settled →
    (initial.run happened).canMove .force = false →
    (initial.run happened).controllers[i]? = some c →
    c.plan.conduct = .composite children → c.state = .removed →
    (∀ j > i, ∀ b : Controller, (initial.run happened).controllers[j]? = some b →
      b.plan.name ∉ children) →
    ∀ child ∈ children, ¬(initial.run happened).HasService child := by
  intro h
  let happened : List Stimulus :=
    [.request (.request 0) .start,
      .request (.request 1) (.composite (unitWithChild ["missing"]))] ++
    turns 6 2 ++ .request (.request 2) (.remove "unit") :: turns 10 2
  have hunit : (initial.run happened).controllers[1]?.map
      (fun c => (c.state, children? c.plan.conduct)) = some (.removed, some ["child"]) := by
    decide +kernel
  obtain ⟨c, hc, he⟩ := Option.map_eq_some_iff.mp hunit
  obtain ⟨hr, hchildren⟩ := Prod.mk.inj he
  have hconduct := eq_of_children? hchildren
  have hinstalled : (initial.run happened).HasService "child" := by decide +kernel
  exact h happened 1 c ["child"] (by decide +kernel) (by decide +kernel) hc hconduct hr
    (forall_later (by decide +kernel)) "child" (by simp) hinstalled

end System

end ServiceHost
