import ServiceHost.Proofs.System.Effects
import ServiceHost.Proofs.System.Ledger
import ServiceHost.Proofs.System.Settlement

/-! # A container that was asked to close

Once asked to close a container goes on closing, and it ends with no promise left. It is not still
closing when nothing is under way: a service that holds it up would depend on an earlier one. -/

namespace ServiceHost

/-- A container that did not end, and stays at its stage unless it is asked to close. -/
structure Container.Proceeds (c c' : Container) : Prop where
  ended : c'.ended = c.ended
  stage : c'.stage = c.stage ∨ c'.stage = .closing ∨ c'.stage = .closed

namespace System

variable {s s' : System} {k : Ticket}

/-! ## The container in the course of a run -/

theorem proceeds_of_eq {c c' : Container} (he : c'.ended = c.ended) (hs : c'.stage = c.stage) :
    c.Proceeds c' := ⟨he, .inl hs⟩

theorem Operates.proceeds {outcome : Graph.Outcome} (ho : s.Operates outcome s') :
    s.container.Proceeds s'.container :=
  proceeds_of_eq (by rw [ho.container]) (by rw [ho.container])

theorem proceeds_closeIfEmpty {c : Container} (h : c.Proceeds s.container) :
    c.Proceeds s.closeIfEmpty.container := by
  obtain ⟨stage, hclose, hst⟩ := closeIfEmpty_container s
  rw [hclose]
  refine ⟨h.ended, ?_⟩
  rcases hst with rfl | rfl
  · exact h.stage
  · exact .inr (.inr rfl)

theorem proceeds_process (s : System) (r : Request) :
    s.container.Proceeds (s.process r).container := by
  have hsame : ∀ {s' : System}, s.Unmoved s' → s.container.Proceeds s'.container := fun hu =>
    proceeds_of_eq (by rw [hu.container]) (by rw [hu.container])
  cases r with
  | install plan ticket =>
      show s.container.Proceeds (s.install plan ticket).container
      unfold System.install
      split
      · exact hsame (unmoved_refuse s _ _)
      · split
        · exact hsame (unmoved_refuse s _ _)
        · exact (operates_install s plan ticket).proceeds
  | remove name ticket =>
      show s.container.Proceeds (s.remove name ticket).container
      have hp := (operates_applyGraph s (s.container.graph.requestRemoval name)).proceeds
      unfold System.remove
      split
      · exact ⟨hp.ended, hp.stage⟩
      · exact hsame (unmoved_settle s _ _)
  | has name ticket | state name ticket | text ticket => exact hsame (unmoved_settle s _ _)
  | close ticket =>
      show s.container.Proceeds (s.close ticket).container
      rw [close_eq]
      split
      · exact hsame (unmoved_settle s _ _)
      · obtain ⟨graph, hgraph⟩ := requestRemovals_container (s.beginClosing ticket)
          s.container.graph.roots
        refine proceeds_closeIfEmpty ?_
        rw [hgraph]
        exact ⟨rfl, .inr (.inl rfl)⟩
  | report a state value =>
      show s.container.Proceeds (s.acceptReport a state value).container
      have ho := operates_applyGraph s (s.container.graph.report a state value)
      rw [acceptReport_eq]
      dsimp only
      generalize s.applyGraph (s.container.graph.report a state value) = s₁ at ho
      have hp := ho.proceeds
      split
      · refine proceeds_closeIfEmpty ?_
        rw [(unmoved_settleAll _ _ _).container]
        exact ⟨hp.ended, hp.stage⟩
      · exact hp

theorem Orderly.proceeds_receive {r : Request} {rest : List Request} (h : s.Orderly)
    (hs : s.container.isServing = true) (hi : s.container.inbox = r :: rest) :
    s.container.Proceeds s.receive.container := by
  have hp := proceeds_process { s with container := { s.container with inbox := rest } } r
  have hc := (h.process hs hi).uncancelled
  unfold System.receive
  rw [hi]
  dsimp only
  split
  · rw [(unmoved_shutDown hc).container]
    exact ⟨hp.ended, .inr (.inr rfl)⟩
  · exact ⟨hp.ended, hp.stage⟩

/-- A container that was asked to close. -/
def IsClosing (s : System) : Prop := s.container.stage = .closing ∨ s.container.stage = .closed

/-- A container that has ended is closed, and has no promise left to keep. -/
def EndsFree (s : System) : Prop :=
  s.container.ended = true → s.container.stage = .closed ∧ ∀ k, ¬s.Holds k

/-- What a step means for the container. -/
theorem container_cases {x : Stimulus} (hs : Step s x s') :
    (∃ out, s'.container = s.container.sent out) ∨
    (s.container.stage = .fresh ∧ s'.container = { s.container with stage := .opened }) ∨
    (∃ r rest, s.container.isServing = true ∧ s.container.inbox = r :: rest ∧ s' = s.receive) ∨
    (s.container.stage = .closed ∧ s'.container =
      { s.container with ended := true, removals := ∅, closing := [] }) := by
  cases hs with
  | calm hcalm => exact .inl ⟨[], hcalm.container.trans s.container.sent_nil.symm⟩
  | opened origin hst hu hw => exact .inr (.inl ⟨hst, hu.container⟩)
  | asked origin o requests w ha =>
      exact .inl ⟨requests, (sends_sendAll { s with world := w } requests).container⟩
  | received request rest hserving hi => exact .inr (.inr (.inl ⟨request, rest, hserving, hi, rfl⟩))
  | finished hst hq => exact .inr (.inr (.inr ⟨hst, (unmoved_finish s).container⟩))
  | took id c hc hcan | resumed id c callback answer hc hwake =>
      have hid := (List.getElem?_eq_some_iff.mp hc).1
      exact .inl ⟨_, (applies_applyTurn hid).container⟩
  | joined id t outcome hj => exact .inl ⟨[], hj.container.trans s.container.sent_nil.symm⟩

theorem IsClosing.step {x : Stimulus} (h : s.IsClosing) (ho : s.Orderly) (hs : Step s x s') :
    s'.IsClosing := by
  have hsame : s'.container.stage = s.container.stage → s'.IsClosing := by
    intro hst
    unfold IsClosing
    rw [hst]
    exact h
  rcases container_cases hs with ⟨out, hc⟩ | ⟨hst, _⟩ | ⟨r, rest, hserving, hi, rfl⟩ | ⟨_, hc⟩
  · exact hsame (by rw [hc, sent_stage])
  · rcases h with h | h <;> simp [hst] at h
  · rcases (ho.proceeds_receive hserving hi).stage with hst | hst
    · exact hsame hst
    · exact hst
  · exact hsame (by rw [hc])

theorem EndsFree.step {x : Stimulus} (h : s.EndsFree) (ho : s.Orderly) (hs : Step s x s') :
    s'.EndsFree := by
  intro he
  rcases container_cases hs with ⟨out, hc⟩ | ⟨hst, hc⟩ | ⟨r, rest, hserving, hi, rfl⟩ | ⟨hst, hc⟩
  · rw [hc, sent_ended] at he
    rw [hc, sent_stage]
    exact (h he).imp_right fun hno k hk => hno k ((holds_sent hc).mp hk)
  · rw [hc] at he
    have hclosed := (h he).1
    simp [hst] at hclosed
  · rw [(ho.proceeds_receive hserving hi).ended] at he
    rcases isServing_iff.mp hserving with hst | hst <;> simp [(h he).1] at hst
  · rw [hc]
    refine ⟨hst, fun k ⟨a, ha⟩ => ?_⟩
    rw [hc] at ha
    cases a <;> simp [Container.held] at ha

theorem IsClosing.run (h : s.IsClosing) (ho : s.Orderly) {happened : List Stimulus}
    (hx : ∀ x ∈ happened, x ≠ .cancel) : (s.run happened).IsClosing := by
  induction happened generalizing s with
  | nil => exact h
  | cons x happened ih =>
      have hs := step_apply ho.uncancelled (hx x List.mem_cons_self)
      exact ih (h.step ho hs) (ho.step hs) fun y hy => hx y (List.mem_cons_of_mem _ hy)

theorem endsFree_run {happened : List Stimulus} (hx : ∀ x ∈ happened, x ≠ .cancel) :
    (initial.run happened).EndsFree := by
  refine run_induction (P := fun happened => (initial.run happened).EndsFree) ?_
    (fun ho hs h => h.step ho hs) hx
  intro he
  simp [run, initial, Container.fresh] at he

/-- An open container that takes a request to close is asked to close. -/
theorem isClosing_receive {k : Ticket} {rest : List Request} (h : s.Orderly)
    (hst : s.container.stage = .opened) (hi : s.container.inbox = .close k :: rest) :
    s.receive.IsClosing := by
  have hc := (h.process (isServing_iff.mpr (.inl hst)) hi).uncancelled
  have hclose : (System.process { s with container := { s.container with inbox := rest } }
      (.close k)).IsClosing := by
    show IsClosing (System.close { s with container := { s.container with inbox := rest } } k)
    rw [close_eq, if_neg (by simp [hst])]
    obtain ⟨graph, hgraph⟩ := requestRemovals_container
      (beginClosing { s with container := { s.container with inbox := rest } } k)
      s.container.graph.roots
    obtain ⟨stage, hempty, hstage⟩ := closeIfEmpty_container (requestRemovals
      (beginClosing { s with container := { s.container with inbox := rest } } k)
      s.container.graph.roots)
    unfold IsClosing
    rw [hempty]
    rcases hstage with rfl | rfl
    · rw [hgraph]
      exact .inl rfl
    · exact .inr rfl
  unfold System.receive
  rw [hi]
  dsimp only
  split
  · exact .inr (by rw [(unmoved_shutDown hc).container])
  · exact hclose

/-! ## A closing container comes to its end -/

variable {m : Name} {n : Node} {c : Controller}

/-- In a settled system no service holds up the end: every service that is left depends on others
that are left and come earlier in the order of dependencies, so that there is none. -/
theorem Settled.not_closing (hs : s.Settled) (h : s.Orderly) : s.container.stage ≠ .closing := by
  intro hst
  have hord := h.consistent.ordered
  obtain ⟨rank, hrank⟩ := hord.ranked
  -- by induction on the rank
  have hnone : ∀ (r : Nat) {m : Name} {n : Node}, rank m < r →
      s.container.graph.nodes[m]? ≠ some n := by
    intro r
    induction r with
    | zero =>
        intro m n hr
        omega
    | succ r ih =>
        intro m n hr hn
        obtain ⟨c, hc⟩ := hs.stands h hn
        rcases (h.covered hst hn hc.controller).resolve_left List.not_mem_nil with hd | ⟨hres, d, hd⟩
        · exact hs.not_draining h hn hc (hc.draining_of_doomed hd)
        · obtain ⟨k, hk, _⟩ := hord.anchored hn hres hd
          have hless := hrank hn hres hd
          exact ih (by omega) hk
  have hempty : s.container.graph.isEmpty = true := by
    refine Graph.isEmpty_iff.mpr fun m => ?_
    by_contra hm
    obtain ⟨n, hn⟩ := Option.ne_none_iff_exists'.mp hm
    exact hnone (rank m + 1) (by omega) hn
  simp [h.occupied hst] at hempty

theorem run_receive {before after : List Stimulus} {r : Request} {rest : List Request}
    (hs : (initial.run before).container.isServing = true)
    (hi : (initial.run before).container.inbox = r :: rest) :
    initial.run (before ++ .move .receive :: after) = (initial.run before).receive.run after := by
  have hmove : (initial.run before).apply (.move .receive) = (initial.run before).receive := by
    simp [apply, perform, performNow, canMove, hs, hi]
  rw [run_append, ← hmove]
  rfl

/-- A service that has started by itself was stopped once if every controller is removed. -/
theorem stopped_of_removed {happened : List Stimulus} (hx : ∀ x ∈ happened, x ≠ .cancel) {i : Nat}
    (hremoved : ∀ {c : Controller}, (initial.run happened).controllers[i]? = some c →
      c.state = .removed)
    (hstart : .injectAndStart ∈ initial.trace happened i)
    (hfail : .failStart .failed ∉ initial.trace happened i) :
    (initial.trace happened i).countP Effect.isStop = 1 := by
  cases hc : (initial.run happened).controllers[i]? with
  | none =>
      have hnil := (hasRun hx).none (List.getElem?_eq_none_iff.mp hc)
      simp [hnil] at hstart
  | some c =>
      have hran := (hasRun hx).ran hc
      rw [hremoved hc] at hran
      exact hran.stopped (by decide) hstart hfail

end System

end ServiceHost
