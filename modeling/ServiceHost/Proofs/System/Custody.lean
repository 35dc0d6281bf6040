import ServiceHost.Proofs.System.Interruptions

/-! # Promises, also once everyone was told to stop

Whoever ends where it is gives up the promises it holds. So it goes on that each open promise is in
one hand, and no settled one is in any. -/

namespace ServiceHost.System

variable {s s' : System} {x : Stimulus} {k : Ticket}

/-- An open promise is in one hand, once; a settled one is in none. -/
def Accounted (s : System) : Prop :=
  ∀ k, s.hands.count k = if s.world.status k = some none then 1 else 0

/-- Promises come into hands, and others leave them by being settled. -/
def Lets (s s' : System) : Prop :=
  ∃ made gone, s.Deals made gone s' ∧ Closes made gone s.world s'.world

theorem Accounted.mem_hands (h : s.Accounted) : k ∈ s.hands ↔ s.world.status k = some none := by
  rw [← List.count_pos_iff, h k]
  split <;> simp [*]

theorem Accounted.lets (h : s.Accounted) (hl : s.Lets s') : s'.Accounted := by
  obtain ⟨made, gone, hd, hc⟩ := hl
  exact Deals.once h hd hc

theorem Lets.of_still (hd : s.Deals [] [] s') (hw : s'.world.pledges = s.world.pledges) :
    s.Lets s' := ⟨[], [], hd, (Serves.of_eq hw).closes⟩

/-! ## The end of the container -/

theorem closes_turnDown (s : System) : s.Deals [] s.container.tickets s.turnDown ∧
    Closes [] s.container.tickets s.world s.turnDown.world := by
  refine ⟨fun k => ?_, ?_⟩
  · have hu := unmoved_turnDown s
    rw [count_hands, count_hands, hu.container, hu.controllers]
    simp only [Container.tickets, Container.awaited, List.filterMap_nil, List.count_nil]
    omega
  · have hs := serves_refuseAll
      { s with container := { s.container with stage := .closed, inbox := [] } }
      s.container.inbox (e := refusal) (by simp [refusal])
    exact hs.closes

/-- A container that has ended holds no promise. -/
theorem deals_ended (hc : s'.container =
      { s.container with ended := true, removals := ∅, closing := [] })
    (hcontrollers : s'.controllers = s.controllers) :
    s.Deals [] (s.container.awaited ++ s.container.closing) s' := by
  intro k
  have hnone : Container.awaited
      { s.container with ended := true, removals := ∅, closing := [] } = [] := rfl
  rw [count_hands, count_hands, hc, hcontrollers, hnone, List.count_append]
  simp only [Container.tickets, List.count_nil]
  omega

theorem closes_endForced (s : System) :
    s.Deals [] (s.container.awaited ++ s.container.closing) s.endForced ∧
      Closes [] (s.container.awaited ++ s.container.closing) s.world s.endForced.world := by
  have hu := unmoved_endForced s
  refine ⟨deals_ended hu.container hu.controllers, ?_⟩
  rw [Container.awaited_eq]
  exact (Closes.settleAll { s.log .warn "⚠️  Service container was closed forcefully" with
    container := { s.container with ended := true, removals := ∅, closing := [] } } _
    (.error .abandoned)).congr_left rfl

/-- A container that stops taking requests answers or gives up whatever it lets go of. -/
theorem closes_shutDown (s : System) : ∃ gone, s.Deals [] gone s.shutDown ∧
    Closes [] gone s.world s.shutDown.world := by
  obtain ⟨hd, hc⟩ := closes_turnDown s
  rw [shutDown_eq_ite]
  split
  · obtain ⟨hd', hc'⟩ := closes_endForced s.turnDown
    exact ⟨_, hd.trans hd', hc.trans hc'⟩
  · exact ⟨_, hd, hc⟩

theorem closes_finish (s : System) : ∃ gone, s.Deals [] gone s.finish ∧
    Closes [] gone s.world s.finish.world := by
  have hu := unmoved_finish s
  have hd := deals_ended hu.container hu.controllers
  refine ⟨s.container.closing ++ s.container.awaited, fun k => ?_, ?_⟩
  · have hk := hd k
    rw [List.count_append] at hk ⊢
    omega
  · have hdone := (Closes.settleAll { s.log .info "🔌 Service container closed" with
      container := { s.container with ended := true, removals := ∅, closing := [] } }
      s.container.closing (.ok .done)).congr_left (w := s.world) rfl
    rw [Container.awaited_eq]
    exact hdone.trans (Closes.settleAll _ _ (.error .abandoned))

/-! ## Steps -/

theorem closes_receive {r : Request} {rest : List Request} (hi : s.container.inbox = r :: rest) :
    ∃ gone, s.Deals [] gone s.receive ∧ Closes [] gone s.world s.receive.world := by
  obtain ⟨gone, hdeals, hserves⟩ := deals_taken hi
  rw [receive_eq hi]
  dsimp only
  split
  · obtain ⟨gone', hdeals', hcloses'⟩ := closes_shutDown
      (process { s with container := { s.container with inbox := rest } } r)
    exact ⟨_, hdeals.trans hdeals', hserves.closes.trans hcloses'⟩
  · exact ⟨gone, hdeals, hserves.closes⟩

theorem closes_endController (s : System) {id : Nat} {c : Controller}
    (hc : s.controllers[id]? = some c) :
    s.Deals [] c.install.toList (s.endController id c) ∧
      Closes [] c.install.toList s.world (s.endController id c).world := by
  refine ⟨fun k => ?_, ?_⟩
  · have hset := count_filterMap_set c.cut hc k
    rw [count_hands, count_hands, endController_container, endController_controllers]
    simp only [Controller.cut, Option.toList_none, List.count_nil] at hset ⊢
    omega
  · unfold endController
    rw [noticeEnd_world]
    exact (Closes.settleAll (s.setController id
      { c with ended := true, inbox := [], install := none }) _ _).congr_left rfl

theorem callOffTask_pledges (s : System) (id : Nat) :
    (s.callOffTask id).world.pledges = s.world.pledges := by
  unfold callOffTask
  split
  · rfl
  · rw [noticeEnd_world]
    rfl

theorem Step.lets (hs : Step s x s') (h : s.Accounted) (hu : s.WellFormed) : s.Lets s' := by
  have hknown : ∀ {i : Nat} {c : Controller}, s.controllers[i]? = some c →
      ∀ k, c.install = some k → k < s.world.pledges.length := by
    intro i c hc k hk
    refine lt_of_status (h.mem_hands.mp (List.mem_append_right _ ?_))
    exact List.mem_filterMap.mpr ⟨c, List.mem_of_getElem? hc, hk⟩
  cases hs with
  | calm hcalm => exact .of_still (.of_calm hcalm) hcalm.pledges
  | opened origin hst hu hw =>
      exact .of_still (.of_congr .opened s.container.ended s.container.graph hu.container
        fun i => by rw [hu.controllers]) hw
  | asked origin o requests w ha =>
      obtain ⟨hd, hw⟩ := deals_asked ha
      exact ⟨_, _, hd, hw.closes⟩
  | received request rest hserving hi => exact ⟨[], closes_receive hi⟩
  | finished hst hq => exact ⟨[], closes_finish s⟩
  | took id c hc hcan =>
      have hregular := hu.controllers hc
      have hreplies := c.replies_take hcan id s.world
      have hend : (c.take id s.world).controller.ended = true →
          (c.take id s.world).controller.install = none := by
        intro hend
        have hnone := (hregular.owes (Controller.ended_of_canTake hcan)).install_eq_none
          (Controller.removed_of_ended hcan hend)
        simp [hreplies.install, Turn.begin, hnone]
      obtain ⟨made, gone, hd, hw⟩ := deals_applyTurn hc hreplies c.answer?_ne_abandoned hend
        (Turn.pays_take hcan id s.world).reported (hknown hc)
      exact ⟨made, gone, hd, hw.closes⟩
  | resumed id c callback answer hc hwake =>
      have halike := (Controller.resume_resumed hwake id).alike
      have hlive := (hu.controllers hc).live (Controller.callback_of_wakeUp? hwake)
      have hstays : (c.resume id s.world).controller.ended = false := halike.ended.trans hlive
      obtain ⟨made, gone, hd, hw⟩ := deals_applyTurn hc (c.replies_resume hwake id) (by simp)
        (by simp [hstays]) (Turn.pays_resume hwake id).reported (hknown hc)
      exact ⟨made, gone, hd, hw.closes⟩
  | joined id t outcome hj => exact .of_still (.of_joins hj) hj.pledges

theorem Happens.lets (hs : Happens s x s') (h : s.Accounted) (hu : s.WellFormed) : s.Lets s' := by
  cases hs with
  | step hs => exact hs.lets h hu
  | obeyed hs =>
      cases hs with
      | told =>
          have hu := unmoved_cancel s
          exact .of_still (.of_congr s.container.stage s.container.ended s.container.graph
            hu.container fun i => by rw [hu.controllers]) (congrArg World.pledges (cancel_world s))
      | forced hx hs => exact ⟨[], closes_shutDown s⟩
      | ended id c hx hc hlive hfree =>
          obtain ⟨hd, hw⟩ := closes_endController (s.log .warn c.cancelText) hc
          exact ⟨[], _, hd, hw.congr_left rfl⟩
      | calledOff id t hx ht hw =>
          refine .of_still (.of_congr s.container.stage s.container.ended s.container.graph
            (callOffTask_container s id) fun i => by rw [callOffTask_controllers])
            (callOffTask_pledges s id)

theorem accounted_initial : initial.Accounted := owned_initial.once

/-- Whatever happens, each open promise is in one hand. -/
theorem accounted_run (happened : List Stimulus) : (initial.run happened).Accounted := by
  have h : (initial.run happened).WellFormed ∧ (initial.run happened).Accounted :=
    kept_run (P := fun s => s.WellFormed ∧ s.Accounted)
      (fun h hs => ⟨h.1.happens hs, h.2.lets (hs.lets h.2 h.1)⟩)
      ⟨wellFormed_initial, accounted_initial⟩ happened
  exact h.2

end ServiceHost.System
