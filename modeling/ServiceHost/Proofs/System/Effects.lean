import ServiceHost.Proofs.System.Supply

/-! # What controllers carry out

The effects a controller carries out over a run tell how far its service has come: a service that
was started, and did not fail to start, is stopped once before it is removed. -/

namespace ServiceHost

/-- What a controller carries out when something happens. -/
def System.effects (s : System) (x : System.Stimulus) (i : Nat) : List Effect :=
  match x with
  | .move (.take j) =>
    if j = i ∧ s.canMove (.take j) then (s.controllers[i]?.map (·.effects)).getD [] else []
  | _ => []

/-- What a controller carries out while things happen, in order. -/
def System.trace (s : System) : List System.Stimulus → Nat → List Effect
  | [], _ => []
  | x :: rest, i => s.effects x i ++ (s.apply x).trace rest i

/-- What was carried out for a service that has come to a state. -/
structure State.Ran (state : State) (l : List Effect) : Prop where
  unstarted : state = .waiting → .injectAndStart ∉ l
  unstopped : state.phase < 4 → l.countP Effect.isStop = 0
  stopped : 4 ≤ state.phase → .injectAndStart ∈ l → .failStart .failed ∉ l →
    l.countP Effect.isStop = 1

/-- A service comes from one state to another by these effects. -/
inductive State.Advances (state : State) : State → List Effect → Prop
  | stays : Advances state state []
  | moves {interruptible : Bool} {x : Signal} {next : State} {effects : List Effect}
      (h : Moves interruptible state x next effects) : Advances state next effects

theorem State.Advances.phase_le {state next : State} {l : List Effect}
    (h : state.Advances next l) : state.phase ≤ next.phase := by
  cases h with
  | stays => exact Nat.le_refl _
  | moves hm => exact hm.phase_le

theorem State.ran_waiting : State.Ran .waiting [] := by
  refine ⟨?_, ?_, ?_⟩ <;> simp [State.phase]

theorem State.Ran.move {interruptible : Bool} {state next : State} {x : Signal}
    {l effects : List Effect} (h : state.Ran l) (hm : Moves interruptible state x next effects) :
    next.Ran (l ++ effects) := by
  obtain ⟨hu, hr, hs⟩ := h
  cases hm <;> refine ⟨?_, ?_, ?_⟩ <;> simp_all [State.phase, Effect.isStop]

theorem State.Ran.advance {state next : State} {l effects : List Effect} (h : state.Ran l)
    (ha : state.Advances next effects) : next.Ran (l ++ effects) := by
  cases ha with
  | stays => exact (List.append_nil l).symm ▸ h
  | moves hm => exact h.move hm

/-! ## The container tells controllers -/

/-- Controllers are told something at most, and new ones are launched. -/
structure Tells (l l' : List Controller) : Prop where
  length : l.length ≤ l'.length
  told : ∀ {i : Nat} {c' : Controller}, l'[i]? = some c' → ∃ messages,
    (∃ c, l[i]? = some c ∧ c' = c.told messages) ∨
      (l.length ≤ i ∧ ∃ plan ticket, c' = (Controller.launch plan ticket).told messages)

theorem Tells.of_eq {l l' : List Controller} (h : l' = l) : Tells l l' := by
  subst h
  exact ⟨Nat.le_refl _, fun {i c'} hc => ⟨[], .inl ⟨c', hc, c'.told_nil.symm⟩⟩⟩

theorem Tells.trans {l l' l'' : List Controller} (h : Tells l l') (h' : Tells l' l'') :
    Tells l l'' := by
  refine ⟨Nat.le_trans h.length h'.length, fun hc => ?_⟩
  obtain ⟨messages', ⟨c', hc', rfl⟩ | ⟨hlen, plan, ticket, rfl⟩⟩ := h'.told hc
  · obtain ⟨messages, ⟨c, hold, rfl⟩ | ⟨hlen, plan, ticket, rfl⟩⟩ := h.told hc'
    · exact ⟨_, .inl ⟨c, hold, Controller.told_append _ _ _⟩⟩
    · exact ⟨_, .inr ⟨hlen, plan, ticket, Controller.told_append _ _ _⟩⟩
  · exact ⟨messages', .inr ⟨Nat.le_trans h.length hlen, plan, ticket, rfl⟩⟩

namespace System

variable {s s' : System}

theorem Operates.tells {outcome : Graph.Outcome} (ho : s.Operates outcome s') :
    Tells s.controllers s'.controllers := by
  refine ⟨Nat.le_of_eq (length_of_map ho.controllers).symm, fun {i c'} hc => ?_⟩
  rw [ho.controllers] at hc
  obtain ⟨c, hold, rfl⟩ := Option.map_eq_some_iff.mp hc
  exact ⟨_, .inl ⟨c, hold, rfl⟩⟩

theorem tells_launch (l : List Controller) (plan : Plan) (ticket : Ticket) :
    Tells l (l ++ [Controller.launch plan ticket]) := by
  refine ⟨by simp, fun {i c'} hc => ⟨[], ?_⟩⟩
  rw [List.getElem?_append] at hc
  split at hc
  · exact .inl ⟨c', hc, c'.told_nil.symm⟩
  · next hlt =>
      refine .inr ⟨Nat.not_lt.mp hlt, plan, ticket, ?_⟩
      rw [List.mem_singleton.mp (List.mem_of_getElem? hc), Controller.told_nil]

theorem tells_requestRemovals (s : System) (names : List Name) :
    Tells s.controllers (s.requestRemovals names).controllers := by
  unfold requestRemovals
  induction names generalizing s with
  | nil => exact .of_eq rfl
  | cons a names ih =>
      exact (operates_applyGraph s (s.container.graph.requestRemoval a)).tells.trans (ih _)

theorem tells_process (s : System) (r : Request) :
    Tells s.controllers (s.process r).controllers := by
  cases r with
  | install plan ticket =>
      show Tells _ (s.install plan ticket).controllers
      unfold System.install
      split
      · exact .of_eq (unmoved_refuse s _ _).controllers
      · split
        · exact .of_eq (unmoved_refuse s _ _).controllers
        · exact (tells_launch s.controllers plan ticket).trans (operates_install s plan ticket).tells
  | remove name ticket =>
      show Tells _ (s.remove name ticket).controllers
      unfold System.remove
      split
      · exact (operates_applyGraph s (s.container.graph.requestRemoval name)).tells
      · exact .of_eq (unmoved_settle s _ _).controllers
  | has name ticket | state name ticket | text ticket =>
      exact .of_eq (unmoved_settle s _ _).controllers
  | close ticket =>
      show Tells _ (s.close ticket).controllers
      rw [close_eq]
      split
      · exact .of_eq (unmoved_settle s _ _).controllers
      · rw [closeIfEmpty_controllers]
        exact tells_requestRemovals (s.beginClosing ticket) _
  | report a state value =>
      show Tells _ (s.acceptReport a state value).controllers
      have ho := operates_applyGraph s (s.container.graph.report a state value)
      rw [acceptReport_eq]
      dsimp only
      split
      · rw [closeIfEmpty_controllers, (unmoved_settleAll _ _ _).controllers]
        exact ho.tells
      · exact ho.tells

/-- Whoever waits for an answer of a container that shuts down is refused. Nobody else notices. -/
theorem shutDown_keeps (s : System) :
    s.shutDown.controllers = s.controllers ∧ s.shutDown.container.graph = s.container.graph := by
  have hrefused := unmoved_refuseAll { s with container := { s.container with
    stage := .closed, inbox := [] } } s.container.inbox
    (.invalidState "complete request" .closed)
  have hgraph := congrArg Container.graph hrefused.container
  unfold System.shutDown
  dsimp only
  split
  · exact ⟨(unmoved_settleAll _ _ _).controllers.trans hrefused.controllers,
      (congrArg Container.graph (unmoved_settleAll _ _ _).container).trans hgraph⟩
  · exact ⟨hrefused.controllers, hgraph⟩

theorem shutDown_controllers (s : System) : s.shutDown.controllers = s.controllers :=
  s.shutDown_keeps.1

theorem shutDown_graph (s : System) : s.shutDown.container.graph = s.container.graph :=
  s.shutDown_keeps.2

theorem receive_eq {r : Request} {rest : List Request} (hi : s.container.inbox = r :: rest) :
    s.receive =
      let s₁ := process { s with container := { s.container with inbox := rest } } r
      if s₁.container.stage = .closed then s₁.shutDown else s₁ := by
  simp [System.receive, hi]

theorem tells_receive (s : System) : Tells s.controllers s.receive.controllers := by
  unfold System.receive
  split
  · exact .of_eq rfl
  · next r rest _ =>
      have ht := tells_process { s with container := { s.container with inbox := rest } } r
      dsimp only
      split
      · rw [shutDown_controllers]
        exact ht
      · exact ht

/-! ## Runs -/

theorem trace_append (s : System) (happened happened' : List Stimulus) (i : Nat) :
    s.trace (happened ++ happened') i = s.trace happened i ++ (s.run happened).trace happened' i := by
  induction happened generalizing s with
  | nil => rfl
  | cons x happened ih =>
      rw [List.cons_append, trace, trace, ih, List.append_assoc]
      rfl

theorem effects_of_ne {x : Stimulus} (hx : ∀ id : Nat, x ≠ .move (.take id)) (i : Nat) :
    s.effects x i = [] := by
  unfold System.effects
  split
  · exact absurd rfl (hx _)
  · rfl

theorem effects_of_cannot {x : Stimulus}
    (hx : ∀ id : Nat, x = .move (.take id) → s.canMove (.take id) = false) (i : Nat) :
    s.effects x i = [] := by
  unfold System.effects
  split
  · rw [if_neg]
    rintro ⟨_, hcan⟩
    simp [hx _ rfl] at hcan
  · rfl

theorem effects_of_length_le {i : Nat} (h : s.controllers.length ≤ i) (x : Stimulus) :
    s.effects x i = [] := by
  have hnone : s.controllers[i]? = none := List.getElem?_eq_none h
  unfold System.effects
  split
  · simp [hnone]
  · rfl

theorem effects_take {id : Nat} {c : Controller} (hc : s.controllers[id]? = some c)
    (h : c.canTake = true) : s.effects (.move (.take id)) id = c.effects := by
  have hcan : s.canMove (.take id) = true := by simp [canMove, hc, h]
  simp [System.effects, hcan, hc]

theorem effects_take_of_ne {id i : Nat} (h : id ≠ i) : s.effects (.move (.take id)) i = [] := by
  simp [System.effects, h]

/-- A controller that takes a message comes to the state its effects lead to. -/
theorem advances_take {c : Controller} (h : c.canTake = true) (id task : Nat) (w : World) :
    c.state.Advances ((c.take id w).final task).state c.effects := by
  rw [Turn.final_state]
  rcases Controller.take_cases h id w with ⟨_, _, _, _, hnone, hs⟩ | ⟨_, _, _, _, _, hm, ht⟩
  · rw [hnone, hs.controller]
    exact .stays
  · rw [ht.state]
    exact .moves hm

theorem plan_take {c : Controller} (h : c.canTake = true) (id task : Nat) (w : World) :
    ((c.take id w).final task).plan = c.plan := by
  rw [Turn.final_plan]
  rcases Controller.take_cases h id w with ⟨_, _, _, _, _, hs⟩ | ⟨_, _, _, _, _, _, ht⟩
  · rw [hs.controller]
  · exact ht.plan

/-- Only a controller that takes a message carries out anything. -/
theorem take_of_effects {x : Stimulus} {i : Nat} {e : Effect} (h : e ∈ s.effects x i) :
    ∃ c : Controller, x = .move (.take i) ∧ s.controllers[i]? = some c ∧ c.canTake = true ∧
      e ∈ c.effects ∧ s.apply x = s.applyTurn i (c.take i s.world) := by
  unfold System.effects at h
  split at h
  · next j =>
      split at h
      · next hif =>
          obtain ⟨rfl, hcan⟩ := hif
          obtain ⟨c, hc, htake⟩ := (Option.any_eq_true _ _).mp hcan
          have happly : s.apply (.move (.take j)) = s.applyTurn j (c.take j s.world) := by
            simp [apply, perform, hcan, performNow, take, hc]
          exact ⟨c, rfl, hc, htake, by simpa [hc] using h, happly⟩
      · simp at h
  · simp at h

/-- What a step means for a controller: it was there and goes on by what it carries out, or it is
launched. -/
theorem Step.advances {x : Stimulus} (hs : Step s x s') {i : Nat} {c' : Controller}
    (hc' : s'.controllers[i]? = some c') :
    (∃ c, s.controllers[i]? = some c ∧ c.state.Advances c'.state (s.effects x i)) ∨
      (s.controllers.length ≤ i ∧ c'.state = .waiting) := by
  have hstays : ∀ {c : Controller}, s.controllers[i]? = some c → s.effects x i = [] →
      c'.state = c.state →
      ∃ c, s.controllers[i]? = some c ∧ c.state.Advances c'.state (s.effects x i) := by
    intro c hc hx hst
    rw [hx, hst]
    exact ⟨c, hc, .stays⟩
  cases hs with
  | calm hcalm hx =>
      have hnone : s.effects x i = [] := effects_of_cannot hx i
      obtain ⟨c, hc, hn⟩ := hcalm.exists_controller hc'
      refine .inl (hstays hc hnone ?_)
      rcases hn with rfl | rfl <;> rfl
  | opened origin hst hu hw =>
      rw [hu.controllers] at hc'
      exact .inl (hstays hc' (effects_of_ne (by simp) i) rfl)
  | asked origin o requests w ha =>
      rw [(sends_sendAll { s with world := w } requests).controllers] at hc'
      exact .inl (hstays hc' (effects_of_ne (by simp) i) rfl)
  | received request rest hserving hi =>
      have hnone := effects_of_ne (s := s) (x := .move .receive) (by simp) i
      obtain ⟨messages, ⟨c, hc, rfl⟩ | ⟨hlen, plan, ticket, rfl⟩⟩ :=
        s.tells_receive.told hc'
      · exact .inl (hstays hc hnone (c.told_state messages))
      · exact .inr ⟨hlen, Controller.told_state _ messages⟩
  | finished hst hq =>
      rw [(unmoved_finish s).controllers] at hc'
      exact .inl (hstays hc' (effects_of_ne (by simp) i) rfl)
  | took id c hc hcan =>
      have hid : id < s.controllers.length := (List.getElem?_eq_some_iff.mp hc).1
      rcases (applies_applyTurn (t := c.take id s.world) hid).cases_controller hc' with
        ⟨rfl, rfl⟩ | ⟨hi, hc'⟩
      · rw [effects_take hc hcan]
        exact .inl ⟨c, hc, advances_take hcan _ _ _⟩
      · exact .inl (hstays hc' (effects_take_of_ne hi) rfl)
  | resumed id c callback answer hc hwake =>
      have hid : id < s.controllers.length := (List.getElem?_eq_some_iff.mp hc).1
      have hnone := effects_of_ne (s := s) (x := .move (.resume id)) (by simp) i
      rcases (applies_applyTurn (t := c.resume id s.world) hid).cases_controller hc' with
        ⟨rfl, rfl⟩ | ⟨_, hc'⟩
      · refine .inl (hstays hc hnone ?_)
        rw [Turn.final_state]
        exact (Controller.resume_resumed hwake id).alike.state
      · exact .inl (hstays hc' hnone rfl)
  | joined id t outcome hj =>
      rw [hj.controllers] at hc'
      obtain ⟨c, hc, rfl⟩ := Option.map_eq_some_iff.mp hc'
      exact .inl (hstays hc (effects_of_ne (by simp) i) (c.told_state _))

/-- What controllers have carried out in the course of a run. -/
structure HasRun (happened : List Stimulus) : Prop where
  ran : ∀ {i : Nat} {c : Controller}, (initial.run happened).controllers[i]? = some c →
    c.state.Ran (initial.trace happened i)
  none : ∀ {i : Nat}, (initial.run happened).controllers.length ≤ i →
    initial.trace happened i = []

/-- Over a whole run, the state of a controller tells what it has carried out. -/
theorem hasRun {happened : List Stimulus} (hx : ∀ x ∈ happened, x ≠ .cancel) :
    HasRun happened := by
  refine run_induction ?_ (fun {happened x} ho hs h => ?_) hx
  · refine ⟨fun {i c} hc => ?_, fun _ => rfl⟩
    simp [initial, run] at hc
  · have htrace : ∀ i, initial.trace (happened ++ [x]) i =
        initial.trace happened i ++ (initial.run happened).effects x i := by
      intro i
      rw [trace_append, trace, trace, List.append_nil]
    refine ⟨fun {i c'} hc' => ?_, fun {i} hlen => ?_⟩
    · rw [htrace]
      rcases hs.advances hc' with ⟨c, hc, ha⟩ | ⟨hlen, hw⟩
      · exact (h.ran hc).advance ha
      · rw [h.none hlen, effects_of_length_le hlen, hw]
        exact State.ran_waiting
    · have hlen := Nat.le_trans ((ho.supplying hs).length) hlen
      rw [htrace, h.none hlen, effects_of_length_le hlen]
      rfl

/-- Whoever carried out something is there. -/
theorem exists_of_mem_trace {happened : List Stimulus} (hx : ∀ x ∈ happened, x ≠ .cancel) {i : Nat}
    {e : Effect} (he : e ∈ initial.trace happened i) :
    ∃ c, (initial.run happened).controllers[i]? = some c := by
  by_contra hc
  rw [← Option.isSome_iff_exists, Bool.not_eq_true, Option.isSome_eq_false_iff,
    Option.isNone_iff_eq_none, List.getElem?_eq_none_iff] at hc
  simp [(hasRun hx).none hc] at he

end System

end ServiceHost
