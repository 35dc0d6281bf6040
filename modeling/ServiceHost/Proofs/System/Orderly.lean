import Mathlib.Data.List.Induction
import ServiceHost.Proofs.System.Grounded

/-! # What the container keeps up

Every request the container takes keeps the graph and the controllers in agreement. A container
that takes no requests has no service, and while it closes each of its services is on its way out
or depends on one that was given to it. -/

namespace ServiceHost

namespace System

/-- An operation on the graph was put into effect. -/
structure Operates (s : System) (outcome : Graph.Outcome) (s' : System) : Prop where
  container : s'.container = { s.container with graph := outcome.1 }
  controllers : ∀ j : Nat, s'.controllers[j]? =
    s.controllers[j]?.map (·.told (Graph.Trial.messagesTo j outcome.2))
  tasks : s'.tasks = s.tasks
  cancelled : s'.cancelled = s.cancelled
  world : s'.world = s.world

theorem length_of_rel {R : Controller → Controller → Prop} {l l' : List Controller}
    (h : ∀ i : Nat, Option.Rel R l[i]? l'[i]?) : l'.length = l.length := by
  have hnone : ∀ i : Nat, l'[i]? = none ↔ l[i]? = none := by
    intro i
    have hrel := h i
    cases hl : l[i]? <;> cases hl' : l'[i]? <;> simp_all
  simp only [List.getElem?_eq_none_iff] at hnone
  exact Nat.le_antisymm ((hnone _).mpr (Nat.le_refl _)) ((hnone _).mp (Nat.le_refl _))

theorem length_of_map {l l' : List Controller} {f : Nat → Controller → Controller}
    (h : ∀ j : Nat, l'[j]? = l[j]?.map (f j)) : l'.length = l.length := by
  refine length_of_rel (R := fun _ _ => True) fun i => ?_
  rw [h]
  cases l[i]? with
  | none => exact .none
  | some c => exact .some trivial

theorem operates_applyGraph (s : System) (outcome : Graph.Outcome) :
    s.Operates outcome (s.applyGraph outcome) :=
  let h := delivers_deliverAll { s with container := { s.container with graph := outcome.1 } }
    outcome.2
  ⟨h.container, h.controllers, h.tasks, h.cancelled, h.world⟩

/-- A service is registered once its controller is launched. -/
theorem operates_install (s : System) (plan : Plan) (ticket : Ticket) :
    Operates { s with controllers := s.controllers ++ [Controller.launch plan ticket] }
      (s.container.graph.register plan.registration s.controllers.length)
      ((wake { s with controllers := s.controllers ++ [Controller.launch plan ticket] }
        (.controller s.controllers.length)).applyGraph
        (s.container.graph.register plan.registration s.controllers.length)) := by
  have ho := operates_applyGraph
    (wake { s with controllers := s.controllers ++ [Controller.launch plan ticket] }
      (.controller s.controllers.length))
    (s.container.graph.register plan.registration s.controllers.length)
  refine ⟨?_, fun j => ?_, ?_, ?_, ?_⟩
  · rw [ho.container, wake_container]
  · rw [ho.controllers, wake_controllers]
  · rw [ho.tasks, wake_tasks]
  · rw [ho.cancelled, wake_cancelled]
  · rw [ho.world, wake_world]

/-- A service on its way out, or one that depends on services given to it. -/
def Covered (n : Node) (c : Controller) : Prop :=
  c.Doomed ∨ (n.resolved = true ∧ ∃ d, d ∈ n.dependencies)

/-- Every installed service is covered, but for those of a list. -/
def CoveredBut (names : List Name) (s : System) : Prop :=
  ∀ ⦃m : Name⦄ ⦃n : Node⦄ ⦃c : Controller⦄, s.container.graph.nodes[m]? = some n →
    s.controllers[n.inbox]? = some c → m ∈ names ∨ Covered n c

/-- The container and its controllers are in order. -/
structure Orderly (s : System) : Prop extends s.Grounded where
  unserved : s.container.isServing = false →
    (∀ m : Name, s.container.graph.nodes[m]? = none) ∧ s.container.inbox = []
  occupied : s.container.stage = .closing → s.container.graph.isEmpty = false
  covered : s.container.stage = .closing → s.CoveredBut []

variable {s s' : System}

theorem Grounded.requestRemoval {a : Name} (h : s.Grounded)
    (ho : s.Operates (s.container.graph.requestRemoval a) s') : s'.Grounded := by
  refine ⟨ho.cancelled.trans h.uncancelled, ?_, ?_⟩
  · rw [ho.container]
    exact h.consistent.requestRemoval h.endsRemoved a ho.controllers
  · intro i c' hc'
    rw [ho.controllers] at hc'
    obtain ⟨c, hc, rfl⟩ := Option.map_eq_some_iff.mp hc'
    rw [ho.tasks]
    exact (h.attended hc).told _

theorem Grounded.report {a : Name} {state : State} {value : Option Value} {rest : List Request}
    (h : s.Grounded) (hi : s.container.inbox = .report a state value :: rest)
    (ho : Operates { s with container := { s.container with inbox := rest } }
      (s.container.graph.report a state value) s') : s'.Grounded := by
  refine ⟨ho.cancelled.trans h.uncancelled, ?_, ?_⟩
  · rw [ho.container]
    exact (hi ▸ h.consistent).report h.endsRemoved ho.controllers
  · intro i c' hc'
    rw [ho.controllers] at hc'
    obtain ⟨c, hc, rfl⟩ := Option.map_eq_some_iff.mp hc'
    rw [ho.tasks]
    exact (h.attended hc).told _

theorem Grounded.register {plan : Plan} {ticket : Ticket} (h : s.Grounded)
    (hname : s.container.graph.nodes[plan.name]? = none)
    (ho : Operates { s with controllers := s.controllers ++ [Controller.launch plan ticket] }
      (s.container.graph.register plan.registration s.controllers.length) s') : s'.Grounded := by
  refine ⟨ho.cancelled.trans h.uncancelled, ?_, ?_⟩
  · rw [ho.container]
    exact h.consistent.register hname h.endsRemoved ho.controllers
  · intro i c' hc'
    rw [ho.controllers] at hc'
    obtain ⟨c, hc, rfl⟩ := Option.map_eq_some_iff.mp hc'
    rw [ho.tasks]
    refine Attended.told ?_ _
    rw [List.getElem?_append] at hc
    split at hc
    · exact h.attended hc
    · rw [List.mem_singleton.mp (List.mem_of_getElem? hc)]
      exact attended_launch i plan ticket s.tasks

/-! ## Closing -/

theorem Covered.told {n n' : Node} {c : Controller} (h : Covered n c) (messages : List Message)
    (hr : n.resolved = true → n'.resolved = true) (hd : n'.dependencies = n.dependencies) :
    Covered n' (c.told messages) := by
  rcases h with h | ⟨hres, d, hdep⟩
  · exact .inl (h.told messages)
  · exact .inr ⟨hr hres, d, hd ▸ hdep⟩

/-- An operation on the services there are keeps them covered. -/
theorem CoveredBut.operate {names : List Name} {outcome : Graph.Outcome} {left : Name → Prop}
    (h : s.CoveredBut names)
    (hp : Graph.Passage s.container.graph outcome.1 outcome.2 left)
    (hold : ∀ {m : Name} {n' : Node}, outcome.1.nodes[m]? = some n' →
      ∃ n, s.container.graph.nodes[m]? = some n)
    (hg : s'.container.graph = outcome.1)
    (hc' : ∀ j : Nat, s'.controllers[j]? =
      s.controllers[j]?.map (·.told (Graph.Trial.messagesTo j outcome.2))) :
    s'.CoveredBut names := by
  intro m n' c' hn' hc
  rw [hg] at hn'
  obtain ⟨n, hn⟩ := hold hn'
  have hcarried := hp.carried hn hn'
  rw [hcarried.inbox, hc'] at hc
  obtain ⟨c, hold, rfl⟩ := Option.map_eq_some_iff.mp hc
  exact (h hn hold).imp_right fun hcov => hcov.told _ (fun hres => hcarried.resolved.mpr (.inl hres))
    hcarried.dependencies

/-- A service that is asked to stop need not be listed any more. -/
theorem CoveredBut.requestRemoval {a : Name} {names : List Name} (h : s.CoveredBut (a :: names))
    (hs : s.Grounded) (ho : s.Operates (s.container.graph.requestRemoval a) s') :
    s'.CoveredBut names := by
  have hcoherent := hs.consistent.ordered.coherent
  have hg : s'.container.graph = (s.container.graph.requestRemoval a).1 := by rw [ho.container]
  have hp := hcoherent.passage_requestRemoval a
  have hall := h.operate hp hcoherent.exists_of_requestRemoval hg ho.controllers
  intro m n' c' hn' hc'
  rcases hall hn' hc' with hm | hcov
  · rcases List.mem_cons.mp hm with rfl | hm
    · rw [hg] at hn'
      obtain ⟨n, hn⟩ := hcoherent.exists_of_requestRemoval hn'
      rw [(hp.carried hn hn').inbox, ho.controllers] at hc'
      obtain ⟨c, hc, rfl⟩ := Option.map_eq_some_iff.mp hc'
      refine .inr (.inl (Controller.doomed_told (hs.endsRemoved hc) ?_))
      rw [messagesTo_signals, Graph.signalsTo_requestRemoval hn, if_pos rfl]
      exact ⟨.stopping, by simp, .inl rfl⟩
    · exact .inl hm
  · exact .inr hcov

/-- Whoever is not asked to stop when the container begins to close depends on a service that was
given to it. -/
theorem Grounded.coveredBut_roots (h : s.Grounded) : s.CoveredBut s.container.graph.roots := by
  intro m n c hn hc
  by_cases hroot : m ∈ s.container.graph.roots
  · exact .inl hroot
  · rw [Graph.mem_roots] at hroot
    push Not at hroot
    obtain ⟨hstate, d, hd, _⟩ := hroot n hn
    exact .inr (.inr ⟨h.consistent.ordered.resolved hn hstate, d, hd⟩)

/-! ## Requests -/

/-- What carrying out a request leaves, before the container looks whether it is closed. -/
structure Processed (s : System) : Prop extends s.Grounded where
  begun : s.container.stage ≠ .fresh
  vacant : s.container.stage = .closed → s.container.graph.isEmpty = true
  occupied : s.container.stage = .closing → s.container.graph.isEmpty = false
  covered : s.container.stage = .closing → s.CoveredBut []

theorem isServing_iff {c : Container} :
    c.isServing = true ↔ c.stage = .opened ∨ c.stage = .closing := by
  simp [Container.isServing]

theorem Orderly.processed (h : s.Orderly) (hs : s.container.isServing = true) : s.Processed := by
  refine ⟨h.toGrounded, ?_, ?_, h.occupied, h.covered⟩
  · intro hf
    rcases isServing_iff.mp hs with hs | hs <;> simp [hf] at hs
  · intro hf
    rcases isServing_iff.mp hs with hs | hs <;> simp [hf] at hs

theorem Processed.of_unmoved (h : s.Processed) (hu : s.Unmoved s') : s'.Processed := by
  have hc := hu.container
  refine ⟨h.toGrounded.of_unmoved hu, by rw [hc]; exact h.begun, ?_, ?_, ?_⟩
  · rw [hc]
    exact h.vacant
  · rw [hc]
    exact h.occupied
  · intro hs m n c hn hcc
    rw [hc] at hs hn
    rw [hu.controllers] at hcc
    exact h.covered hs hn hcc

/-- Only the graph, the inbox and the stage of the container count. -/
theorem Processed.congr (h : s.Processed) (hg : s'.container.graph = s.container.graph)
    (hst : s'.container.stage = s.container.stage) (hi : s'.container.inbox = s.container.inbox)
    (hc : s'.controllers = s.controllers) (ht : s'.tasks = s.tasks)
    (hx : s'.cancelled = s.cancelled) : s'.Processed := by
  refine ⟨h.toGrounded.congr hg hi hc ht hx, by rw [hst]; exact h.begun, ?_, ?_, ?_⟩
  · rw [hst, hg]
    exact h.vacant
  · rw [hst, hg]
    exact h.occupied
  · intro hs m n c hn hcc
    rw [hst] at hs
    rw [hg] at hn
    rw [hc] at hcc
    exact h.covered hs hn hcc

/-- A request that is no report is taken. -/
theorem Orderly.taken {r : Request} {rest : List Request} (h : s.Orderly)
    (hi : s.container.inbox = r :: rest) (hr : r.ticket?.isSome = true) :
    Orderly { s with container := { s.container with inbox := rest } } := by
  have hcons : Consistent s.container.graph rest s.controllers :=
    h.consistent.congr fun m => by rw [hi, Consistent.reportsOf_cons_of_ticket hr]
  refine ⟨⟨h.uncancelled, hcons, h.attended⟩, ?_, h.occupied, h.covered⟩
  intro hno
  have := (h.unserved hno).2
  simp [hi] at this

theorem Orderly.install (h : s.Orderly) (hs : s.container.isServing = true) (plan : Plan)
    (ticket : Ticket) : (s.install plan ticket).Processed := by
  unfold System.install
  split
  · exact (h.processed hs).of_unmoved (unmoved_refuse s _ _)
  · next hopen =>
      have hopen : s.container.stage = .opened := by simpa using hopen
      split
      · exact (h.processed hs).of_unmoved (unmoved_refuse s _ _)
      · next hname =>
          have hname : s.container.graph.nodes[plan.name]? = none :=
            Graph.not_contains_iff.mp hname
          have ho := operates_install s plan ticket
          have hg : Grounded _ := h.toGrounded.register hname ho
          have hstage := congrArg Container.stage ho.container
          refine ⟨hg, ?_, ?_, ?_, ?_⟩ <;>
          · intro hst
            rw [hst] at hstage
            have : s.container.stage = _ := hstage.symm
            simp [hopen] at this

theorem isEmpty_requestRemoval {g : Graph} (hg : g.Coherent) (a : Name) (h : g.isEmpty = false) :
    (g.requestRemoval a).1.isEmpty = false := by
  rw [Bool.eq_false_iff, ne_eq, Graph.isEmpty_iff] at h ⊢
  push Not at h ⊢
  obtain ⟨m, hm⟩ := h
  obtain ⟨n, hn⟩ := Option.ne_none_iff_exists'.mp hm
  obtain ⟨n', hn', _⟩ := hg.shown_requestRemoval (a := a) hn
  exact ⟨m, by simp [hn']⟩

theorem Processed.requestRemoval {a : Name} (h : s.Processed)
    (ho : s.Operates (s.container.graph.requestRemoval a) s') : s'.Processed := by
  have hcoherent := h.consistent.ordered.coherent
  have hc := ho.container
  refine ⟨h.toGrounded.requestRemoval ho, by rw [hc]; exact h.begun, ?_, ?_, ?_⟩
  · rw [hc]
    intro hst
    rw [Graph.isEmpty_iff]
    intro m
    by_contra hm
    obtain ⟨n', hn'⟩ := Option.ne_none_iff_exists'.mp hm
    obtain ⟨n, hn⟩ := hcoherent.exists_of_requestRemoval hn'
    simp [Graph.isEmpty_iff.mp (h.vacant hst)] at hn
  · rw [hc]
    exact fun hst => isEmpty_requestRemoval hcoherent a (h.occupied hst)
  · intro hst
    rw [hc] at hst
    exact (h.covered hst).operate (hcoherent.passage_requestRemoval a)
      hcoherent.exists_of_requestRemoval (by rw [hc]) ho.controllers

theorem Orderly.remove (h : s.Orderly) (hs : s.container.isServing = true) (name : Name)
    (ticket : Ticket) : (s.remove name ticket).Processed := by
  unfold System.remove
  split
  · have hp := (h.processed hs).requestRemoval (operates_applyGraph s
      (s.container.graph.requestRemoval name))
    exact hp.congr rfl rfl rfl rfl rfl rfl
  · exact (h.processed hs).of_unmoved (unmoved_settle s _ _)

/-- A closing container is closed once it is empty. -/
theorem Grounded.closeIfEmpty (h : s.Grounded) (hs : s.container.isServing = true)
    (hc : s.container.stage = .closing → s.CoveredBut []) : s.closeIfEmpty.Processed := by
  have hne : s.container.stage ≠ .fresh ∧ s.container.stage ≠ .closed := by
    rcases isServing_iff.mp hs with hs | hs <;> simp [hs]
  unfold System.closeIfEmpty
  by_cases hif : s.container.stage = .closing ∧ s.container.graph.isEmpty = true
  · rw [if_pos (by simpa using hif)]
    exact ⟨h.congr rfl rfl rfl rfl rfl, by simp, fun _ => hif.2, by simp, by simp⟩
  · rw [if_neg (by simpa using hif)]
    refine ⟨h, hne.1, fun hst => absurd hst hne.2, fun hst => ?_, hc⟩
    simpa [hst] using hif

/-- The container as it begins to close, before any service is asked to stop. -/
def beginClosing (s : System) (ticket : Ticket) : System :=
  { s.log .info "🔌 Closing service container" with
    container := { s.container with
      stage := .closing, closing := s.container.closing ++ [ticket] } }

/-- Services are asked to stop, one after the other. -/
def requestRemovals (s : System) (names : List Name) : System :=
  names.foldl (fun s root => s.applyGraph (s.container.graph.requestRemoval root)) s

theorem close_eq (s : System) (ticket : Ticket) : s.close ticket =
    if s.container.stage ≠ .opened then
      s.settle ticket (.error (.invalidState "close service container" s.container.stage))
    else ((s.beginClosing ticket).requestRemovals s.container.graph.roots).closeIfEmpty := rfl

/-- The container lets go of the promises to answer once a service is removed. -/
def freeRemovals (s : System) (name : Name) : System :=
  { s with container := { s.container with removals := s.container.removals.erase name } }

theorem acceptReport_eq (s : System) (name : Name) (state : State) (value : Option Value) :
    s.acceptReport name state value =
      let s₁ := s.applyGraph (s.container.graph.report name state value)
      if state = .removed then
        ((s₁.freeRemovals name).settleAll (s₁.container.removals[name]?.getD [])
          (.ok .done)).closeIfEmpty
      else s₁ := rfl

theorem requestRemovals_container (s : System) (names : List Name) :
    ∃ graph, (s.requestRemovals names).container = { s.container with graph } := by
  unfold System.requestRemovals
  induction names generalizing s with
  | nil => exact ⟨_, rfl⟩
  | cons a names ih =>
      obtain ⟨graph, hcontainer⟩ := ih (s.applyGraph (s.container.graph.requestRemoval a))
      exact ⟨graph, by rw [List.foldl_cons, hcontainer, (operates_applyGraph s _).container]⟩

/-- The container asks services to stop one after the other. -/
theorem Grounded.requestRemovals {names : List Name} (h : s.Grounded) (hc : s.CoveredBut names) :
    (s.requestRemovals names).Grounded ∧ (s.requestRemovals names).CoveredBut [] := by
  unfold System.requestRemovals
  induction names generalizing s with
  | nil => exact ⟨h, hc⟩
  | cons a names ih =>
      have ho := operates_applyGraph s (s.container.graph.requestRemoval a)
      exact ih (h.requestRemoval ho) (hc.requestRemoval h ho)

theorem Orderly.close (h : s.Orderly) (hs : s.container.isServing = true) (ticket : Ticket) :
    (s.close ticket).Processed := by
  rw [close_eq]
  split
  · exact (h.processed hs).of_unmoved (unmoved_settle s _ _)
  · have hg₁ : (s.beginClosing ticket).Grounded := h.toGrounded.congr rfl rfl rfl rfl rfl
    obtain ⟨hg, hcov⟩ := hg₁.requestRemovals hg₁.coveredBut_roots
    obtain ⟨graph, hcontainer⟩ := requestRemovals_container (s.beginClosing ticket)
      s.container.graph.roots
    refine Grounded.closeIfEmpty hg ?_ fun _ => hcov
    exact (congrArg Container.isServing hcontainer).trans rfl

theorem Orderly.acceptReport {a : Name} {state : State} {value : Option Value}
    {rest : List Request} (h : s.Orderly) (hs : s.container.isServing = true)
    (hi : s.container.inbox = .report a state value :: rest) :
    Processed (acceptReport { s with container := { s.container with inbox := rest } }
      a state value) := by
  have hcoherent := h.consistent.ordered.coherent
  rw [acceptReport_eq]
  generalize hs₁ : { s with container := { s.container with inbox := rest } } = s₁
  have hgraph : s₁.container.graph = s.container.graph := by rw [← hs₁]
  have hst : s₁.container.stage = s.container.stage := by rw [← hs₁]
  have hcov : s₁.container.stage = .closing → s₁.CoveredBut [] := by
    subst hs₁
    exact h.covered
  have ho := operates_applyGraph s₁ (s₁.container.graph.report a state value)
  rw [hgraph] at ho ⊢
  dsimp only
  generalize s₁.applyGraph (s.container.graph.report a state value) = s₂ at ho ⊢
  have hg₂ : s₂.Grounded := h.toGrounded.report hi (hs₁ ▸ ho)
  have hst₂ : s₂.container.stage = s.container.stage := by rw [ho.container, hst]
  have hserving : s₂.container.isServing = true := by
    rw [isServing_iff, hst₂, ← isServing_iff]
    exact hs
  have hcov₂ : s₂.container.stage = .closing → s₂.CoveredBut [] := by
    intro hclosing
    have hp : s₁.container.graph.Passage (s.container.graph.report a state value).1
        (s.container.graph.report a state value).2 fun m => m = a ∧ state.Leaving := by
      rw [hgraph]
      exact hcoherent.passage_report state value
    refine (hcov ((hst.trans hst₂.symm).trans hclosing)).operate hp ?_ ?_ ho.controllers
    · rw [hgraph]
      exact hcoherent.exists_of_report
    · rw [ho.container]
  split
  · have hu := unmoved_settleAll (s₂.freeRemovals a) (s₂.container.removals[a]?.getD []) (.ok .done)
    have hg₃ : (s₂.freeRemovals a).Grounded := hg₂.congr rfl rfl rfl rfl rfl
    refine (hg₃.of_unmoved hu).closeIfEmpty ?_ fun hclosing m n c hn hc => ?_
    · rw [hu.container]
      exact hserving
    · rw [hu.container] at hclosing hn
      rw [hu.controllers] at hc
      exact hcov₂ hclosing hn hc
  · next hr =>
      rw [isServing_iff] at hserving
      refine ⟨hg₂, ?_, ?_, ?_, hcov₂⟩
      · rcases hserving with h | h <;> simp [h]
      · rcases hserving with h | h <;> simp [h]
      · intro hclosing
        have hsome := h.occupied (hst₂.symm.trans hclosing)
        rw [Bool.eq_false_iff, ne_eq, Graph.isEmpty_iff] at hsome ⊢
        push Not at hsome ⊢
        obtain ⟨m, hm⟩ := hsome
        refine ⟨m, fun hnone => ?_⟩
        rw [ho.container] at hnone
        rcases hcoherent.nodes_report_eq_none state value hnone with hno | ⟨_, hno⟩
        · exact hm hno
        · exact hr hno

/-- The container takes a request. -/
theorem Orderly.process {r : Request} {rest : List Request} (h : s.Orderly)
    (hs : s.container.isServing = true) (hi : s.container.inbox = r :: rest) :
    Processed (process { s with container := { s.container with inbox := rest } } r) := by
  cases r with
  | report a state value => exact h.acceptReport hs hi
  | install plan ticket => exact (h.taken hi rfl).install hs plan ticket
  | remove name ticket => exact (h.taken hi rfl).remove hs name ticket
  | close ticket => exact (h.taken hi rfl).close hs ticket
  | has name ticket | state name ticket | text ticket =>
      exact ((h.taken hi rfl).processed hs).of_unmoved (unmoved_settle _ _ _)

theorem unmoved_finish (s : System) :
    Unmoved { s with container := { s.container with ended := true, removals := ∅, closing := [] } }
      s.finish :=
  ((unmoved_log _ _ _).trans (unmoved_settleAll _ _ _)).trans (unmoved_settleAll _ _ _)

theorem unmoved_refuseAll (s : System) (requests : List Request) (e : Error) :
    s.Unmoved (requests.foldl (fun s r => s.refuse r e) s) := by
  induction requests generalizing s with
  | nil => exact .refl s
  | cons r requests ih => exact (unmoved_refuse s r e).trans (ih _)

theorem shutDown_eq (h : s.cancelled = false) : s.shutDown = s.container.inbox.foldl
    (fun s r => s.refuse r (.invalidState "complete request" .closed))
    { s with container := { s.container with stage := .closed, inbox := [] } } := by
  have hu := unmoved_refuseAll
    { s with container := { s.container with stage := .closed, inbox := [] } }
    s.container.inbox (.invalidState "complete request" .closed)
  unfold System.shutDown
  dsimp only
  rw [if_neg]
  rw [hu.cancelled]
  simp [h]

theorem unmoved_shutDown (h : s.cancelled = false) :
    Unmoved { s with container := { s.container with stage := .closed, inbox := [] } }
      s.shutDown := by
  rw [shutDown_eq h]
  exact unmoved_refuseAll _ _ _

/-- A container that is closed turns down whatever is left, and is done but for ending. -/
theorem Processed.shutDown (h : s.Processed) (hst : s.container.stage = .closed) :
    s.shutDown.Orderly := by
  have hnone := Graph.isEmpty_iff.mp (h.vacant hst)
  have hu := unmoved_shutDown h.uncancelled
  have hg : Grounded { s with container := { s.container with stage := .closed, inbox := [] } } :=
    ⟨h.uncancelled, h.consistent.congr fun m => (h.consistent.silent (hnone m)).symm,
      h.attended⟩
  refine ⟨hg.of_unmoved hu, fun _ => ?_, ?_, ?_⟩ <;> rw [hu.container]
  · exact ⟨hnone, rfl⟩
  · simp
  · simp

theorem Orderly.receive (h : s.Orderly) {r : Request} {rest : List Request}
    (hs : s.container.isServing = true) (hi : s.container.inbox = r :: rest) :
    s.receive.Orderly := by
  have hp := h.process hs hi
  unfold System.receive
  rw [hi]
  dsimp only
  split
  · next hclosed => exact hp.shutDown hclosed
  · next hopen =>
      refine ⟨hp.toGrounded, fun hno => ?_, hp.occupied, hp.covered⟩
      exfalso
      have hb := hp.begun
      generalize (System.process _ _).container = container at *
      cases hstage : container.stage <;> simp_all [Container.isServing]

theorem closeIfEmpty_controllers (s : System) : s.closeIfEmpty.controllers = s.controllers := by
  unfold System.closeIfEmpty
  split <;> rfl

theorem closeIfEmpty_graph (s : System) : s.closeIfEmpty.container.graph = s.container.graph := by
  unfold System.closeIfEmpty
  split <;> rfl

/-! ## Runs -/

theorem orderly_initial : initial.Orderly := by
  refine ⟨grounded_initial, fun _ => ⟨fun m => ?_, rfl⟩, ?_, ?_⟩
  · simp [initial, Container.fresh, Graph.empty]
  · simp [initial, Container.fresh]
  · simp [initial, Container.fresh]

theorem sent_graph (c : Container) (l : List Request) : (c.sent l).graph = c.graph := by
  unfold Container.sent
  split <;> rfl

theorem sent_stage (c : Container) (l : List Request) : (c.sent l).stage = c.stage := by
  unfold Container.sent
  split <;> rfl

theorem sent_ended (c : Container) (l : List Request) : (c.sent l).ended = c.ended := by
  unfold Container.sent
  split <;> rfl

theorem sent_isServing (c : Container) (l : List Request) :
    (c.sent l).isServing = c.isServing := by
  simp [Container.isServing, sent_stage]

theorem sent_of_not_serving {c : Container} (h : c.isServing = false) (l : List Request) :
    c.sent l = c := by
  simp [Container.sent, h]

/-- A step in which at most the controllers move and requests are sent. -/
theorem Orderly.sent (h : s.Orderly) (hg : s'.Grounded) {requests : List Request}
    (hc : s'.container = s.container.sent requests)
    (hcov : ∀ {i : Nat} {c' : Controller}, s'.controllers[i]? = some c' →
      ∃ c, s.controllers[i]? = some c ∧ (c.Doomed → c'.Doomed)) : s'.Orderly := by
  refine ⟨hg, ?_, ?_, ?_⟩
  · intro hno
    rw [hc, sent_isServing] at hno
    rw [hc, sent_of_not_serving hno]
    exact h.unserved hno
  · rw [hc, sent_graph, sent_stage]
    exact h.occupied
  · intro hst m n c' hn hc'
    rw [hc] at hst hn
    rw [sent_stage] at hst
    rw [sent_graph] at hn
    obtain ⟨c, hcc, hd⟩ := hcov hc'
    exact (h.covered hst hn hcc).imp_right (.imp_left hd)

theorem Orderly.turn (h : s.Orderly) {id : Nat} {c : Controller} {t : Turn}
    (hc : s.controllers[id]? = some c) (ht : Turned id c s.tasks t) : (s.applyTurn id t).Orderly := by
  have hid : id < s.controllers.length := (List.getElem?_eq_some_iff.mp hc).1
  have ha := applies_applyTurn (t := t) hid
  refine h.sent (h.toGrounded.turn (fun hno => (h.unserved hno).1) hc ht) ha.container ?_
  intro i c' hc'
  rcases ha.cases_controller hc' with ⟨rfl, rfl⟩ | ⟨_, hc'⟩
  · exact ⟨c, hc, ht.doomed⟩
  · exact ⟨c', hc', fun h => h⟩

theorem Orderly.step {x : Stimulus} (h : s.Orderly) (hs : Step s x s') : s'.Orderly := by
  cases hs with
  | calm hcalm =>
      refine h.sent (h.toGrounded.calm hcalm) (hcalm.container.trans s.container.sent_nil.symm) ?_
      intro i c' hc'
      obtain ⟨c, hc, hn⟩ := hcalm.exists_controller hc'
      refine ⟨c, hc, fun hd => ?_⟩
      rcases hn with rfl | rfl
      · exact hd
      · exact hd.congr rfl rfl
  | opened origin hst hu hw =>
      have hc := hu.container
      have hg : Grounded { s with container := { s.container with stage := .opened } } :=
        h.toGrounded.congr rfl rfl rfl rfl rfl
      refine ⟨hg.of_unmoved hu, ?_, ?_, ?_⟩ <;> rw [hc] <;> simp [Container.isServing]
  | asked origin o requests w ha =>
      have hsent := sends_sendAll { s with world := w } requests
      refine h.sent (h.toGrounded.asked ha) hsent.container ?_
      intro i c' hc'
      rw [hsent.controllers] at hc'
      exact ⟨c', hc', fun h => h⟩
  | received request rest hserving hi => exact h.receive hserving hi
  | finished hst hq =>
      have hu := unmoved_finish s
      have hg : Grounded { s with container := { s.container with
          ended := true, removals := ∅, closing := [] } } :=
        h.toGrounded.congr rfl rfl rfl rfl rfl
      refine ⟨hg.of_unmoved hu, fun hno => ?_, ?_, ?_⟩ <;> rw [hu.container]
      · exact h.unserved (by simp [Container.isServing, hst])
      · simp [hst]
      · simp [hst]
  | took id c hc hcan => exact h.turn hc (turned_take (h.attended hc) hcan _)
  | resumed id c callback answer hc hwake => exact h.turn hc (turned_resume (h.attended hc) hwake)
  | joined id t outcome hj =>
      refine h.sent (h.toGrounded.joins hj) (hj.container.trans s.container.sent_nil.symm) ?_
      intro i c' hc'
      rw [hj.controllers] at hc'
      obtain ⟨c, hc, rfl⟩ := Option.map_eq_some_iff.mp hc'
      exact ⟨c, hc, fun hd => hd.told _⟩

/-- Whatever happens, short of being told to stop where it is, a system stays in order. -/
theorem Orderly.run (h : s.Orderly) {happened : List Stimulus}
    (hx : ∀ x ∈ happened, x ≠ .cancel) : (s.run happened).Orderly := by
  induction happened generalizing s with
  | nil => exact h
  | cons x happened ih =>
      refine ih (h.step (step_apply h.uncancelled (hx x List.mem_cons_self))) ?_
      exact fun y hy => hx y (List.mem_cons_of_mem _ hy)

theorem orderly_run {happened : List Stimulus} (hx : ∀ x ∈ happened, x ≠ .cancel) :
    (initial.run happened).Orderly :=
  orderly_initial.run hx

theorem run_snoc (s : System) (happened : List Stimulus) (x : Stimulus) :
    s.run (happened ++ [x]) = (s.run happened).apply x := by
  rw [run_append]
  rfl

/-- What holds at some time of a run and is kept by every step holds from then on. -/
theorem run_induction_from {P : List Stimulus → Prop} {before after : List Stimulus}
    (start : P before)
    (snoc : ∀ {happened : List Stimulus} {x : Stimulus}, (∀ y ∈ happened, y ≠ .cancel) →
      (initial.run happened).Orderly →
      Step (initial.run happened) x (initial.run (happened ++ [x])) → P happened →
      P (happened ++ [x]))
    (hx : ∀ x ∈ before ++ after, x ≠ .cancel) : P (before ++ after) := by
  induction after using List.reverseRecOn with
  | nil => rwa [List.append_nil]
  | append_singleton after x ih =>
      rw [← List.append_assoc] at hx ⊢
      have hbefore : ∀ y ∈ before ++ after, y ≠ .cancel :=
        fun y hy => hx y (List.mem_append_left _ hy)
      have ho := orderly_run hbefore
      have hs := step_apply ho.uncancelled (hx x (by simp))
      rw [← run_snoc] at hs
      exact snoc hbefore ho hs (ih hbefore)

/-- What holds at the beginning and is kept by every step holds after every run. -/
theorem run_induction {P : List Stimulus → Prop} (nil : P [])
    (snoc : ∀ {happened : List Stimulus} {x : Stimulus}, (initial.run happened).Orderly →
      Step (initial.run happened) x (initial.run (happened ++ [x])) → P happened →
      P (happened ++ [x]))
    {happened : List Stimulus} (hx : ∀ x ∈ happened, x ≠ .cancel) : P happened := by
  rw [← List.nil_append happened] at hx ⊢
  exact run_induction_from nil (fun _ ho hs h => snoc ho hs h) hx

end System

end ServiceHost
