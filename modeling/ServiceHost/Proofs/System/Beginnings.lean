import ServiceHost.Proofs.System.Replies

/-! # How a service began

A service that has left the state in which it waits, and is not on its way out, was started once.
Its installer is told when the controller moves on, and never told anything else. -/

namespace ServiceHost

/-- How often a service was started that has come to a state. -/
structure State.Begun (state : State) (l : List Effect) : Prop where
  waiting : state = .waiting → l.count .injectAndStart = 0
  once : 1 ≤ state.phase → state.phase ≤ 3 → l.count .injectAndStart = 1

theorem State.begun_waiting : State.Begun .waiting [] :=
  ⟨fun _ => rfl, fun h => by simp [State.phase] at h⟩

theorem State.Begun.advance {state next : State} {l effects : List Effect} (h : state.Begun l)
    (ha : state.Advances next effects) : next.Begun (l ++ effects) := by
  cases ha with
  | stays => exact (List.append_nil l).symm ▸ h
  | moves hm =>
      obtain ⟨hw, hs⟩ := h
      cases hm <;> refine ⟨?_, ?_⟩ <;> simp_all [State.phase, List.count_append]

namespace System

variable {s s' : System} {happened : List Stimulus} {i : Nat} {c : Controller} {k : Ticket}

theorem trace_snoc (s : System) (happened : List Stimulus) (x : Stimulus) (i : Nat) :
    s.trace (happened ++ [x]) i = s.trace happened i ++ (s.run happened).effects x i := by
  rw [trace_append, trace, trace, List.append_nil]

/-- Over a whole run, whoever does not wait any more and is not stopped yet was started once. -/
theorem begun_run (hx : ∀ x ∈ happened, x ≠ .cancel)
    (hc : (initial.run happened).controllers[i]? = some c) :
    c.state.Begun (initial.trace happened i) := by
  refine run_induction (P := fun happened => (∀ x ∈ happened, x ≠ .cancel) →
    ∀ {i : Nat} {c : Controller}, (initial.run happened).controllers[i]? = some c →
      c.state.Begun (initial.trace happened i)) ?_ ?_ hx hx hc
  · intro _ i c hc
    simp [initial, run] at hc
  · intro happened x ho hs h hx i c' hc'
    have hbefore : ∀ y ∈ happened, y ≠ .cancel := fun y hy => hx y (List.mem_append_left _ hy)
    rw [trace_snoc]
    rcases hs.advances hc' with ⟨c, hc, ha⟩ | ⟨hlen, hw⟩
    · exact (h hbefore hc).advance ha
    · rw [(hasRun hbefore).none hlen, effects_of_length_le hlen, hw]
      exact State.begun_waiting

/-! ## What the installer is told -/

/-- The promise made to an installer is settled in the turn that tells it something. -/
theorem Owned.status_take (h : s.Owned) (hc : s.controllers[i]? = some c)
    (hcan : c.canTake = true) (hk : c.install = some k) {o : Except Error Answer}
    (ha : c.answer? = some o) :
    (s.applyTurn i (c.take i s.world)).world.status k = some (some o) := by
  have hopen : s.world.status k = some none :=
    h.mem_hands.mp (List.mem_append_right _
      (List.mem_filterMap.mpr ⟨c, List.mem_of_getElem? hc, hk⟩))
  obtain ⟨w, asked, hw, _, hasked⟩ := (Controller.replies_take hcan i s.world).asks
  have hsettled : w.status k = some (some o) := by
    have hanswered : (s.world.answered c.install c.answer?).status k = some (some o) := by
      rw [hk, ha]
      show (s.world.settle k o).status k = _
      rw [World.status_settle, if_pos ⟨rfl, hopen⟩]
    exact (World.status_congr hw).trans hanswered
  have hlt : k < w.pledges.length := by
    by_contra hno
    rw [World.status_eq_none.mpr (Nat.le_of_not_lt hno)] at hsettled
    cases hsettled
  exact (settles_applyTurn s i (c.take i s.world)).settled
    ((hasked.status_of_lt hlt).trans hsettled)

/-- The promise made to an installer is in the hand of the controller until it is settled by what
the controller tells. -/
theorem Orderly.told_installer (h : s.Orderly) (howned : s.Owned) (howes : c.Owes)
    {x : Stimulus} (hs : Step s x (s.apply x)) (hc : s.controllers[i]? = some c)
    (hk : c.install = some k) {c' : Controller} (hc' : (s.apply x).controllers[i]? = some c') :
    c'.install = some k ∨ ∃ o, x = .move (.take i) ∧ c.canTake = true ∧ c.answer? = some o ∧
      (s.apply x).world.status k = some (some o) := by
  cases h.becomes hs hc' with
  | rests hold hr =>
      obtain rfl := Option.some.inj (hc.symm.trans hold)
      exact .inl (hr.install.trans hk)
  | takes hx hold hcan hfinal =>
      obtain rfl := Option.some.inj (hc.symm.trans hold)
      have happly : s.apply x = s.applyTurn i (c.take i s.world) := by
        simp [hx, System.apply, perform, canMove, performNow, System.take, hc, hcan]
      cases ha : c.answer? with
      | some o => exact .inr ⟨o, hx, hcan, rfl, happly ▸ howned.status_take hc hcan hk ha⟩
      | none =>
          refine .inl ?_
          have hended : (c.take i s.world).controller.ended = false := by
            by_contra hend
            have hr := Controller.removed_of_ended hcan (by simpa using hend)
            simp [howes.install_eq_none hr] at hk
          rw [hfinal, Controller.final_install_eq hended,
            (Controller.replies_take hcan i s.world).install, ha]
          exact hk
  | launched plan ticket messages hx hlen =>
      have hlt := (List.getElem?_eq_some_iff.mp hc).1
      omega

end System

end ServiceHost
