import ServiceHost.Proofs.Graph.DeliveryProtocol
import ServiceHost.Proofs.System.Answers

/-! # The graph of a container as a trial

What a container makes of its graph when it carries out a request is what the steps of a trial make
of it, and what it tells controllers is what those steps send. -/

namespace ServiceHost

open ServiceHost.Graph (Trial TrialStep)

/-- The steps on the graph by which a container carries out a request. -/
def Request.steps (c : Container) : Request → List TrialStep
  | .install plan _ =>
    if c.stage = .opened then
      [.register plan.name plan.dependencies plan.group (Names.ofList plan.rosters.keys)]
    else []
  | .remove name _ => [.remove name]
  | .report name reached value => [.report name reached value]
  | .close _ => if c.stage = .opened then c.graph.roots.map .remove else []
  | .has _ _ | .state _ _ | .text _ => []

namespace System

/-- The controllers a request launches. -/
def launches (s : System) : Request → List Controller
  | .install plan ticket =>
    if s.container.stage = .opened ∧ s.container.graph.contains plan.name = false then
      [Controller.launch plan ticket]
    else []
  | _ => []

/-- The steps on the graph that something makes which happens to a system. -/
def steps (s : System) (x : Stimulus) : List TrialStep :=
  match x, s.container.inbox with
  | .move .receive, r :: _ => if s.container.isServing then r.steps s.container else []
  | _, _ => []

/-- The steps on the graph in the course of a run. -/
def history (s : System) : List Stimulus → List TrialStep
  | [] => []
  | x :: rest => s.steps x ++ (s.apply x).history rest

/-- A trial has the graph of the container, and an inbox for each controller. -/
structure Mirrors (t : Trial) (s : System) : Prop where
  graph : t.graph = s.container.graph
  inboxes : t.inboxes.length = s.controllers.length

/-- Controllers are told what was sent. -/
def Hears (l : List Controller) (sent : List Delivery) (l' : List Controller) : Prop :=
  ∀ j : Nat, l'[j]? = l[j]?.map (·.told (Trial.messagesTo j sent))

variable {s s' : System} {t : Trial}

theorem Orderly.sound (h : s.Orderly) (ht : Mirrors t s) : t.Sound := by
  refine ⟨ht.graph ▸ h.consistent.ordered.coherent, fun hn => ?_⟩
  rw [ht.graph] at hn
  obtain ⟨c, hc, _⟩ := h.consistent.linked hn
  rw [ht.inboxes]
  exact (List.getElem?_eq_some_iff.mp hc).1

theorem Mirrors.of_operates {outcome : Graph.Outcome} (ht : Mirrors t s)
    (ho : s.Operates outcome s') : Mirrors { t with graph := outcome.1 } s' :=
  ⟨by rw [ho.container], ht.inboxes.trans (length_of_map ho.controllers).symm⟩

theorem Mirrors.of_unmoved (ht : Mirrors t s) (hu : s.Unmoved s') : Mirrors t s' :=
  ⟨by rw [hu.container]; exact ht.graph, by rw [hu.controllers]; exact ht.inboxes⟩

theorem Mirrors.congr (ht : Mirrors t s) (hg : s'.container.graph = s.container.graph)
    (hc : s'.controllers.length = s.controllers.length) : Mirrors t s' :=
  ⟨ht.graph.trans hg.symm, ht.inboxes.trans hc.symm⟩

theorem Hears.refl (l : List Controller) : Hears l [] l := by
  intro j
  cases l[j]? with
  | none => rfl
  | some c => exact congrArg some (c.told_nil).symm

theorem Hears.trans {l l' l'' : List Controller} {sent sent' : List Delivery}
    (h : Hears l sent l') (h' : Hears l' sent' l'') : Hears l (sent ++ sent') l'' := by
  intro j
  rw [h', h, Option.map_map]
  congr 1
  funext c
  rw [Function.comp_apply, Controller.told_append]
  simp [Trial.messagesTo]

/-! ## Requests -/

/-- The container asks services to stop. -/
theorem Mirrors.requestRemovals (ht : Mirrors t s) (names : List Name) :
    Mirrors ((names.map TrialStep.remove).foldl Trial.next t) (s.requestRemovals names) ∧
      Hears s.controllers (t.trace (names.map .remove)) (s.requestRemovals names).controllers := by
  unfold System.requestRemovals
  induction names generalizing s t with
  | nil => exact ⟨ht, .refl _⟩
  | cons a names ih =>
      have ho := operates_applyGraph s (s.container.graph.requestRemoval a)
      rw [← ht.graph] at ho
      obtain ⟨hm, hh⟩ := ih (t := t.next (.remove a)) (ht.of_operates ho)
      rw [List.foldl_cons, ← ht.graph]
      exact ⟨hm, Hears.trans ho.controllers hh⟩

theorem Mirrors.still (ht : Mirrors t s) (hu : s.Unmoved s') :
    Mirrors t s' ∧ Hears (s.controllers ++ []) [] s'.controllers :=
  ⟨ht.of_unmoved hu, by rw [List.append_nil, hu.controllers]; exact .refl _⟩

/-- A service is registered, or the request is turned down. -/
theorem Mirrors.install (ht : Mirrors t s) (plan : Plan) (ticket : Ticket) :
    Mirrors ((Request.steps s.container (.install plan ticket)).foldl Trial.next t)
        (s.install plan ticket) ∧
      Hears (s.controllers ++ s.launches (.install plan ticket))
        (t.trace (Request.steps s.container (.install plan ticket)))
        (s.install plan ticket).controllers := by
  unfold System.install
  simp only [Request.steps, launches]
  by_cases hst : s.container.stage = .opened
  · by_cases hname : s.container.graph.contains plan.name = true
    · have hsame : t.next (.register plan.name plan.dependencies plan.group
          (Names.ofList plan.rosters.keys)) = t :=
        Trial.next_register_of_taken (by rwa [ht.graph])
      have hnone : t.sends (.register plan.name plan.dependencies plan.group
          (Names.ofList plan.rosters.keys)) = [] :=
        Trial.sends_register_of_taken (by rwa [ht.graph])
      simpa [hst, hname, hsame, Trial.trace, hnone] using ht.still (unmoved_refuse s _ _)
    · have hfree : s.container.graph.contains plan.name = false := by simpa using hname
      have hnew : ¬t.graph.contains plan.name = true := by rwa [ht.graph]
      have ho := operates_install s plan ticket
      simp only [hst, hfree, ne_eq, not_true_eq_false, if_false, if_true, and_self,
        Bool.false_eq_true, List.foldl_cons, List.foldl_nil, Trial.trace, List.append_nil]
      rw [Trial.next_register_of_free hnew, Trial.sends_register_of_free hnew, ht.graph, ht.inboxes]
      refine ⟨⟨?_, ?_⟩, ho.controllers⟩
      · rw [ho.container]
        rfl
      · rw [length_of_map ho.controllers]
        simp [ht.inboxes]
  · simpa [hst, Trial.trace] using ht.still (unmoved_refuse s _ _)

/-- A service is asked to stop, if there is one. -/
theorem Mirrors.remove (ht : Mirrors t s) (name : Name) (ticket : Ticket) :
    Mirrors (t.next (.remove name)) (s.remove name ticket) ∧
      Hears s.controllers (t.trace [.remove name]) (s.remove name ticket).controllers := by
  obtain ⟨hm, hh⟩ := ht.requestRemovals [name]
  unfold System.remove
  split
  · exact ⟨hm.congr rfl rfl, hh⟩
  · next hname =>
      have hnone : t.graph.nodes[name]? = none := by
        rw [ht.graph]
        exact Graph.not_contains_iff.mp hname
      have hsame : t.next (.remove name) = t := by
        simp [Trial.next, Trial.perform, Graph.requestRemoval_of_none hnone]
      have hsent : t.sends (.remove name) = [] := by
        simp [Trial.sends, Trial.perform, Graph.requestRemoval_of_none hnone]
      simpa [hsame, Trial.trace, hsent] using ht.still (unmoved_settle s _ _)

/-- The graph takes in the state a service reached. -/
theorem Mirrors.acceptReport (ht : Mirrors t s) (a : Name) (state : State) (value : Option Value) :
    Mirrors (t.next (.report a state value)) (s.acceptReport a state value) ∧
      Hears s.controllers (t.trace [.report a state value])
        (s.acceptReport a state value).controllers := by
  have ho := operates_applyGraph s (s.container.graph.report a state value)
  rw [acceptReport_eq]
  rw [← ht.graph] at ho ⊢
  dsimp only
  generalize s.applyGraph (t.graph.report a state value) = s₁ at ho
  have hm : Mirrors (t.next (.report a state value)) s₁ := ht.of_operates ho
  have hh : Hears s.controllers (t.trace [.report a state value]) s₁.controllers := by
    simp only [Trial.trace, List.append_nil]
    exact ho.controllers
  split
  · rw [closeIfEmpty_controllers, (unmoved_settleAll _ _ _).controllers]
    refine ⟨hm.congr ?_ ?_, hh⟩
    · rw [closeIfEmpty_graph, (unmoved_settleAll _ _ _).container]
      rfl
    · rw [closeIfEmpty_controllers, (unmoved_settleAll _ _ _).controllers]
      rfl
  · exact ⟨hm, hh⟩

/-- Carrying out a request makes these steps on the graph, and controllers hear what they send. -/
theorem Mirrors.process (ht : Mirrors t s) (r : Request) :
    Mirrors ((r.steps s.container).foldl Trial.next t) (s.process r) ∧
      Hears (s.controllers ++ s.launches r) (t.trace (r.steps s.container))
        (s.process r).controllers := by
  cases r with
  | has name ticket | state name ticket | text ticket => exact ht.still (unmoved_settle s _ _)
  | install plan ticket => exact ht.install plan ticket
  | remove name ticket =>
      simp only [launches, List.append_nil]
      exact ht.remove name ticket
  | close ticket =>
      show Mirrors _ (s.close ticket) ∧ Hears _ _ (s.close ticket).controllers
      rw [close_eq]
      simp only [Request.steps, launches, List.append_nil]
      by_cases hst : s.container.stage = .opened
      · have hbegun : Mirrors t (s.beginClosing ticket) := ⟨ht.graph, ht.inboxes⟩
        obtain ⟨hm, hh⟩ := hbegun.requestRemovals s.container.graph.roots
        simp only [hst, ne_eq, not_true_eq_false, if_false, if_true]
        rw [closeIfEmpty_controllers]
        exact ⟨hm.congr (closeIfEmpty_graph _) (by rw [closeIfEmpty_controllers]), hh⟩
      · simpa [hst, Trial.trace] using ht.still (unmoved_settle s _ _)
  | report a state value =>
      simp only [launches, List.append_nil]
      exact ht.acceptReport a state value

theorem Mirrors.receive (ht : Mirrors t s) {r : Request} {rest : List Request}
    (hi : s.container.inbox = r :: rest) :
    Mirrors ((r.steps s.container).foldl Trial.next t) s.receive ∧
      Hears (s.controllers ++ s.launches r) (t.trace (r.steps s.container))
        s.receive.controllers := by
  have htaken : Mirrors t { s with container := { s.container with inbox := rest } } :=
    ⟨ht.graph, ht.inboxes⟩
  obtain ⟨hm, hh⟩ := htaken.process r
  rw [receive_eq hi]
  dsimp only
  split
  · rw [shutDown_controllers]
    exact ⟨hm.congr (shutDown_graph _) (by rw [shutDown_controllers]), hh⟩
  · exact ⟨hm, hh⟩

/-! ## Steps -/

theorem steps_receive {r : Request} {rest : List Request} (hs : s.container.isServing = true)
    (hi : s.container.inbox = r :: rest) : s.steps (.move .receive) = r.steps s.container := by
  simp [steps, hi, hs]

theorem steps_of_ne {x : Stimulus} (hx : x ≠ .move .receive) : s.steps x = [] := by
  unfold steps
  split
  · exact absurd rfl hx
  · rfl

theorem apply_receive (s : System) : (∃ r rest, s.container.isServing = true ∧
    s.container.inbox = r :: rest ∧ s.apply (.move .receive) = s.receive) ∨
    (s.steps (.move .receive) = [] ∧ s.apply (.move .receive) = s) := by
  cases hi : s.container.inbox with
  | nil =>
      refine .inr ⟨by simp [steps, hi], ?_⟩
      simp [apply, perform, canMove, hi]
  | cons r rest =>
      by_cases hs : s.container.isServing = true
      · exact .inl ⟨r, rest, hs, rfl, by simp [apply, perform, performNow, canMove, hs, hi]⟩
      · exact .inr ⟨by simp [steps, hi, hs], by simp [apply, perform, canMove, hs]⟩

/-- A step in which no request is taken leaves the graph, and adds no controller. -/
theorem Step.still {x : Stimulus} (hs : Step s x s') (hx : x ≠ .move .receive) :
    s'.container.graph = s.container.graph ∧ s'.controllers.length = s.controllers.length := by
  cases hs with
  | calm hcalm => exact ⟨by rw [hcalm.container], length_of_rel hcalm.controllers⟩
  | opened origin hst hu hw => exact ⟨by rw [hu.container], by rw [hu.controllers]⟩
  | asked origin o requests w ha =>
      have hsent := sends_sendAll { s with world := w } requests
      exact ⟨by rw [hsent.container, sent_graph], by rw [hsent.controllers]⟩
  | received request rest hserving hi => exact absurd rfl hx
  | finished hst hq =>
      have hu := unmoved_finish s
      exact ⟨by rw [hu.container], by rw [hu.controllers]⟩
  | took id c hc hcan =>
      have ha := applies_applyTurn (t := c.take id s.world) (List.getElem?_eq_some_iff.mp hc).1
      exact ⟨by rw [ha.container, sent_graph], by rw [ha.controllers, List.length_set]⟩
  | resumed id c callback answer hc hwake =>
      have ha := applies_applyTurn (t := c.resume id s.world) (List.getElem?_eq_some_iff.mp hc).1
      exact ⟨by rw [ha.container, sent_graph], by rw [ha.controllers, List.length_set]⟩
  | joined id t outcome hj => exact ⟨by rw [hj.container], length_of_map hj.controllers⟩

end System

end ServiceHost
