import ServiceHost.Proofs.System.Hands
import ServiceHost.Proofs.System.Mirror

/-! # Every request is answered once

Each open promise is in one hand and no settled one is, so none is settled twice or forgotten. The
container keeps what it promised for a removal until the incarnation it found is unregistered. -/

namespace ServiceHost

open ServiceHost.Graph (Trial TrialStep)

namespace System

variable {s s' : System} {k : Ticket}

/-! ## Each promise is in one hand -/

/-- An open promise is in one hand, once, and a settled one in none, as long as those settled were
in a hand. -/
theorem Deals.once {made gone : List Ticket}
    (h : ∀ k, s.hands.count k = if s.world.status k = some none then 1 else 0)
    (hd : s.Deals made gone s') (hs : Closes made gone s.world s'.world) (k : Ticket) :
    s'.hands.count k = if s'.world.status k = some none then 1 else 0 := by
  have hmade : k ∈ made ↔ s.world.pledges.length ≤ k ∧ k < s'.world.pledges.length := by
    rw [hs.numbers, List.mem_range'_1, hs.length]
  have hone : made.count k = if k ∈ made then 1 else 0 := by
    have hnodup : made.Nodup := by
      rw [hs.numbers]
      exact List.nodup_range'
    exact hnodup.count
  have hnew : k ∈ made → s.world.status k = none := fun hk =>
    World.status_eq_none.mpr (hmade.mp hk).1
  have hcount := hd k
  rw [h k, hone] at hcount
  by_cases hg : k ∈ gone
  · have hpos := List.count_pos_iff.mpr hg
    -- what is settled was in a hand, and so it was open
    have hopen : k ∈ made ∨ s.world.status k = some none := by
      by_contra hno
      push Not at hno
      rw [if_neg hno.2, if_neg hno.1] at hcount
      omega
    obtain ⟨o, ho⟩ := hs.settled hg hopen
    rw [ho, if_neg (by simp)]
    rcases hopen with hm | hopen
    · rw [hnew hm, if_neg (by simp), if_pos hm] at hcount
      omega
    · have hm : k ∉ made := fun hm => by simp [hnew hm] at hopen
      rw [if_pos hopen, if_neg hm] at hcount
      omega
  · rw [List.count_eq_zero.mpr hg] at hcount
    rw [hs.kept hg]
    by_cases hm : k ∈ made
    · rw [hnew hm, if_neg (by simp)] at hcount
      simpa [hm] using hcount
    · simpa [hm] using hcount

/-- An open promise is in one hand, once; a settled one is in none, and was not given up. -/
structure Owned (s : System) : Prop where
  once : ∀ k, s.hands.count k = if s.world.status k = some none then 1 else 0
  answered : ∀ k, s.world.status k ≠ some (some (.error .abandoned))

theorem Owned.deals {made gone : List Ticket} (h : s.Owned) (hd : s.Deals made gone s')
    (hs : Serves made gone s.world s'.world) : s'.Owned := by
  refine ⟨Deals.once h.once hd hs.closes, fun k habandoned => ?_⟩
  by_cases hg : k ∈ gone
  · by_cases hopen : k ∈ made ∨ s.world.status k = some none
    · obtain ⟨o, ho, hset⟩ := hs.settled hg hopen
      rw [hset, Option.some.injEq, Option.some.injEq] at habandoned
      exact ho habandoned
    · have hcount := hd k
      have hpos := List.count_pos_iff.mpr hg
      rw [h.once k, hs.count_made] at hcount
      push Not at hopen
      rw [if_neg hopen.2, if_neg hopen.1] at hcount
      omega
  · rw [hs.kept hg] at habandoned
    split at habandoned
    · cases habandoned
    · exact h.answered k habandoned

theorem owned_initial : initial.Owned :=
  ⟨fun _ => rfl, fun _ => by simp [initial, World.initial, World.status]⟩

/-- Whatever happens, short of being told to stop where it is, each open promise is in one hand. -/
theorem owned_run {happened : List Stimulus} (hx : ∀ x ∈ happened, x ≠ .cancel) :
    (initial.run happened).Owned := by
  refine (run_induction (P := fun happened => (∀ x ∈ happened, x ≠ .cancel) →
    (initial.run happened).Owned) (fun _ => owned_initial) ?_ hx) hx
  intro happened x ho hs h hx
  have hx' : ∀ y ∈ happened, y ≠ .cancel := fun y hy => hx y (List.mem_append_left _ hy)
  obtain ⟨made, gone, hd, hserves⟩ := ho.deals (ledger_run hx') (owes_run hx') hs
  exact (h hx').deals hd hserves

/-! ## What the container is to keep -/

/-- The promises for removals, by name, once a request is carried out. -/
def removalsAfter (c : Container) : Request → Std.ExtTreeMap Name (List Ticket) compare
  | .remove name ticket =>
      if c.graph.contains name then c.removals.insert name (c.held (some name) ++ [ticket])
      else c.removals
  | .report a state _ => if state = .removed then c.removals.erase a else c.removals
  | _ => c.removals

/-- The promises for the end of everything, once a request is carried out. -/
def closingAfter (c : Container) : Request → List Ticket
  | .close ticket => if c.stage = .opened then c.closing ++ [ticket] else c.closing
  | _ => c.closing

/-- A request changes the graph and the stage, and what is to be answered later. -/
theorem process_container (s : System) (r : Request) : ∃ stage graph, (s.process r).container =
    { s.container with
      stage, graph
      removals := removalsAfter s.container r, closing := closingAfter s.container r } := by
  have hstill : ∀ {s' : System}, s.Unmoved s' → ∃ stage graph,
      s'.container = { s.container with stage, graph } := fun hu => ⟨_, _, hu.container⟩
  cases r with
  | has name ticket | state name ticket | text ticket => exact hstill (unmoved_settle s _ _)
  | install plan ticket =>
      show ∃ stage graph, (s.install plan ticket).container = { s.container with stage, graph }
      unfold System.install
      split
      · exact hstill (unmoved_refuse s _ _)
      · split
        · exact hstill (unmoved_refuse s _ _)
        · exact ⟨_, _, (operates_install s plan ticket).container⟩
  | remove name ticket =>
      show ∃ stage graph, (s.remove name ticket).container = _
      unfold System.remove removalsAfter
      by_cases hname : s.container.graph.contains name = true
      · have ho := operates_applyGraph s (s.container.graph.requestRemoval name)
        simp only [hname, if_true, ho.container]
        exact ⟨_, _, rfl⟩
      · simp only [hname]
        exact hstill (unmoved_settle s _ _)
  | close ticket =>
      show ∃ stage graph, (s.close ticket).container = _
      rw [close_eq, closingAfter]
      by_cases hst : s.container.stage = .opened
      · obtain ⟨stage, hclose, _⟩ := closeIfEmpty_container
          ((s.beginClosing ticket).requestRemovals s.container.graph.roots)
        obtain ⟨graph, hgraph⟩ := requestRemovals_container (s.beginClosing ticket)
          s.container.graph.roots
        rw [if_neg (not_not.mpr hst), if_pos hst, hclose, hgraph]
        exact ⟨_, _, rfl⟩
      · rw [if_pos hst, if_neg hst]
        exact hstill (unmoved_settle s _ _)
  | report a state value =>
      have ho := operates_applyGraph s (s.container.graph.report a state value)
      show ∃ stage graph, (s.acceptReport a state value).container = _
      rw [acceptReport_eq, removalsAfter]
      dsimp only
      generalize s.applyGraph (s.container.graph.report a state value) = s₁ at ho
      split
      · obtain ⟨stage, hclose, _⟩ := closeIfEmpty_container
          ((s₁.freeRemovals a).settleAll (s₁.container.removals[a]?.getD []) (.ok .done))
        rw [hclose, (unmoved_settleAll _ _ _).container, freeRemovals, ho.container]
        exact ⟨_, _, rfl⟩
      · exact ⟨_, _, ho.container⟩

theorem removals_process (s : System) (r : Request) :
    (∃ name ticket, r = .remove name ticket ∧ s.container.graph.contains name = true ∧
      (s.process r).container.removals =
        s.container.removals.insert name (s.container.held (some name) ++ [ticket])) ∨
    (∃ a v, r = .report a .removed v ∧
      (s.process r).container.removals = s.container.removals.erase a) ∨
    ((∀ a v, r ≠ .report a .removed v) ∧
      (∀ name ticket, r = .remove name ticket → s.container.graph.contains name = false) ∧
      (s.process r).container.removals = s.container.removals) := by
  obtain ⟨_, _, hcont⟩ := process_container s r
  have hafter : (s.process r).container.removals = removalsAfter s.container r := by rw [hcont]
  rw [hafter]
  cases r with
  | remove name ticket =>
      by_cases hname : s.container.graph.contains name = true
      · exact .inl ⟨name, ticket, rfl, hname, if_pos hname⟩
      · refine .inr (.inr ⟨by simp, ?_, if_neg hname⟩)
        rintro _ _ ⟨⟩
        simpa using hname
  | report a state value =>
      by_cases hr : state = .removed
      · exact .inr (.inl ⟨a, value, by rw [hr], if_pos hr⟩)
      · exact .inr (.inr ⟨by simp [hr], by simp, if_neg hr⟩)
  | _ => exact .inr (.inr ⟨by simp, by simp, rfl⟩)

/-- Only the report that a service is removed takes it out of the graph. -/
theorem Request.mem_steps_removes {r : Request} {c : Container} {step : TrialStep} {a : Name}
    (h : step ∈ r.steps c) (hr : step.Removes a) : ∃ v, r = .report a .removed v := by
  cases r with
  | has name ticket | state name ticket | text ticket => simp [Request.steps] at h
  | install plan ticket =>
      simp only [Request.steps] at h
      split at h
      · rw [List.mem_singleton.mp h] at hr
        exact hr.elim
      · simp at h
  | remove name ticket =>
      rw [List.mem_singleton.mp h] at hr
      exact hr.elim
  | close ticket =>
      simp only [Request.steps] at h
      split at h
      · obtain ⟨root, _, rfl⟩ := List.mem_map.mp h
        exact hr.elim
      · simp at h
  | report b state value =>
      rw [List.mem_singleton.mp h, TrialStep.removes_report] at hr
      exact ⟨value, by rw [hr.1, hr.2]⟩

theorem Request.not_removes {r : Request} {c : Container} {a : Name}
    (h : ∀ v, r ≠ .report a .removed v) : ∀ step ∈ r.steps c, ¬step.Removes a := by
  intro step hstep hr
  obtain ⟨v, hv⟩ := Request.mem_steps_removes hstep hr
  exact h v hv

/-- Steps that do not take a service out of the graph leave it there, and it goes on to stop if it
did. -/
theorem Trial.Sound.survives {t : Trial} (ht : t.Sound) {l : List TrialStep} {a : Name} {n : Node}
    (hl : ∀ step ∈ l, ¬step.Removes a) (hn : t.graph.nodes[a]? = some n) :
    ∃ n', (l.foldl Trial.next t).graph.nodes[a]? = some n' ∧ n'.inbox = n.inbox ∧
      (n.stopping = true → n'.stopping = true) := by
  induction l generalizing t n with
  | nil => exact ⟨n, hn, rfl, id⟩
  | cons step l ih =>
      have hspec := Trial.stepSpec ht step
      obtain ⟨k, hk, hs⟩ := hspec.survives hn (hl step List.mem_cons_self)
      obtain ⟨n', hn', hi, hst⟩ := ih hspec.sound
        (fun x hx => hl x (List.mem_cons_of_mem _ hx)) hk
      exact ⟨n', hn', hi.trans hs.inbox, fun h => hst (hs.stopping.mpr (.inl h))⟩

/-- A trial that mirrors a system. -/
def trial (s : System) : Trial :=
  ⟨s.container.graph, List.replicate s.controllers.length ⟨"", 0, true⟩⟩

theorem mirrors_trial (s : System) : Mirrors s.trial s := ⟨rfl, by simp [trial]⟩

theorem survives_process (h : s.trial.Sound) {r : Request} {a : Name} {n : Node}
    (hr : ∀ v, r ≠ .report a .removed v) (hn : s.container.graph.nodes[a]? = some n) :
    ∃ n', (s.process r).container.graph.nodes[a]? = some n' ∧ n'.inbox = n.inbox ∧
      (n.stopping = true → n'.stopping = true) := by
  have hm := (mirrors_trial s).process r
  rw [← hm.1.graph]
  exact Trial.Sound.survives h (Request.not_removes hr) hn

/-- Every service that is to be removed by request has been told to stop. -/
def Sought (s : System) : Prop :=
  ∀ {name : Name}, name ∈ s.container.removals →
    ∃ n : Node, s.container.graph.nodes[name]? = some n ∧ n.stopping = true

theorem Sought.process (h : s.Sought) (hsound : s.trial.Sound) (r : Request) :
    (s.process r).Sought := by
  intro b hb
  have hold : (∀ v, r ≠ .report b .removed v) → b ∈ s.container.removals →
      ∃ n : Node, (s.process r).container.graph.nodes[b]? = some n ∧ n.stopping = true := by
    intro hr hb
    obtain ⟨n, hn, hst⟩ := h hb
    obtain ⟨n', hn', _, hst'⟩ := survives_process hsound hr hn
    exact ⟨n', hn', hst' hst⟩
  rcases removals_process s r with
    ⟨name, ticket, rfl, hname, heq⟩ | ⟨a, v, rfl, heq⟩ | ⟨hr, _, heq⟩
  · rw [heq, Std.ExtTreeMap.mem_insert, Std.LawfulEqCmp.compare_eq_iff_eq] at hb
    rcases hb with rfl | hb
    · obtain ⟨n, hn⟩ := Graph.contains_iff.mp hname
      have hm := (mirrors_trial s).process (.remove name ticket)
      obtain ⟨n', hn', hs⟩ := (Trial.stepSpec hsound (.remove name)).survives
        (x := name) hn (fun h => h)
      exact ⟨n', hm.1.graph ▸ hn', hs.stopping.mpr (.inr rfl)⟩
    · exact hold (by simp) hb
  · rw [heq, Std.ExtTreeMap.mem_erase, ne_eq, Std.LawfulEqCmp.compare_eq_iff_eq] at hb
    exact hold (fun w hw => hb.1 (by simpa using (Request.report.inj hw).1)) hb.2
  · exact hold (hr b) (heq ▸ hb)

/-- What is left of a container that takes a request, but for its stage and its inbox. -/
theorem Orderly.receive_container {r : Request} {rest : List Request} (h : s.Orderly)
    (hs : s.container.isServing = true) (hi : s.container.inbox = r :: rest) :
    ∃ stage inbox, s.receive.container =
      { (System.process { s with container := { s.container with inbox := rest } } r).container with
        stage, inbox } := by
  have hcancelled := (h.process hs hi).uncancelled
  unfold System.receive
  rw [hi]
  dsimp only
  split
  · exact ⟨_, _, (unmoved_shutDown hcancelled).container⟩
  · exact ⟨_, _, rfl⟩

theorem Sought.step {x : Stimulus} (h : s.Sought) (ho : s.Orderly) (hs : Step s x s') :
    s'.Sought := by
  rcases container_cases hs with ⟨out, hc⟩ | ⟨_, hc⟩ | ⟨r, rest, hserving, hi, rfl⟩ | ⟨_, hc⟩
  · unfold Sought
    rw [hc, sent_removals, sent_graph]
    exact h
  · unfold Sought
    rw [hc]
    exact h
  · obtain ⟨stage, inbox, hc⟩ := ho.receive_container hserving hi
    unfold Sought
    rw [hc]
    exact Sought.process (s := { s with container := { s.container with inbox := rest } }) h
      (ho.sound (mirrors_trial s)) r
  · intro name hmem
    rw [hc] at hmem
    simp at hmem

theorem sought_run {happened : List Stimulus} (hx : ∀ x ∈ happened, x ≠ .cancel) :
    (initial.run happened).Sought := by
  refine run_induction (P := fun happened => (initial.run happened).Sought) ?_
    (fun ho hs h => h.step ho hs) hx
  intro name hmem
  simp [run, initial, Container.fresh] at hmem

/-! ## Removals -/

/-- What is promised for the removal of an incarnation is kept once it is unregistered, and the
container has it to keep until then. -/
structure Bound (s : System) (name : Name) (i : Inbox) (k : Ticket) : Prop where
  known : i < s.controllers.length
  held : s.container.graph.Hosts name i → k ∈ s.container.held (some name)
  kept : ¬s.container.graph.Hosts name i → s.world.status k = some (some (.ok .done))

variable {name : Name} {i : Inbox}

theorem Bound.congr (h : s.Bound name i k) (ho : s.Onward s')
    (hc : s.controllers.length ≤ s'.controllers.length)
    (hg : ∀ j < s.controllers.length, s'.container.graph.Hosts name j ↔
      s.container.graph.Hosts name j)
    (hheld : k ∈ s.container.held (some name) → k ∈ s'.container.held (some name)) :
    s'.Bound name i k :=
  ⟨Nat.lt_of_lt_of_le h.known hc, fun hh => hheld (h.held ((hg i h.known).mp hh)),
    fun hh => ho.settled (h.kept fun hh' => hh ((hg i h.known).mpr hh'))⟩

theorem Trial.Sound.hosts {t : Trial} (ht : t.Sound) {l : List TrialStep}
    (hl : ∀ step ∈ l, ¬step.Removes name) (hi : i < t.inboxes.length) :
    (l.foldl Trial.next t).graph.Hosts name i ↔ t.graph.Hosts name i := by
  induction l generalizing t with
  | nil => exact Iff.rfl
  | cons step l ih =>
      have hspec := Trial.stepSpec ht step
      rw [List.foldl_cons, ih hspec.sound (fun x hx => hl x (List.mem_cons_of_mem _ hx))
        (Nat.lt_of_lt_of_le hi hspec.grows), hspec.hosts hi]
      exact and_iff_left (hl step List.mem_cons_self)

theorem status_acceptReport {a : Name} (hk : k ∈ s.container.held (some a))
    (hopen : s.world.status k = some none) (value : Option Value) :
    (s.acceptReport a .removed value).world.status k = some (some (.ok .done)) := by
  have ho := operates_applyGraph s (s.container.graph.report a .removed value)
  rw [acceptReport_eq]
  dsimp only
  generalize s.applyGraph (s.container.graph.report a .removed value) = s₁ at ho
  rw [if_pos rfl, closeIfEmpty_world]
  refine status_settleAll (s := s₁.freeRemovals a) ?_
    ((World.status_congr (congrArg World.pledges ho.world)).trans hopen) _
  rw [show s₁.container.removals = s.container.removals by rw [ho.container]]
  exact hk

theorem Bound.step {x : Stimulus} (h : s.Bound name i k) (ho : s.Orderly) (hl : s.Ledger)
    (hs : Step s x s') : s'.Bound name i k := by
  have hon := (hl.step ho hs).2
  have hlen := (ho.supplying hs).length
  have hsound := ho.sound (mirrors_trial s)
  rcases container_cases hs with ⟨out, hc⟩ | ⟨_, hc⟩ | ⟨r, rest, hserving, hi, rfl⟩ | ⟨hst, hc⟩
  · exact h.congr hon hlen (fun j _ => by rw [hc, sent_graph]) (by rw [hc, sent_held]; exact id)
  · exact h.congr hon hlen (fun j _ => by rw [hc]) (by rw [hc]; exact id)
  · let s₁ : System := { s with container := { s.container with inbox := rest } }
    obtain ⟨stage, inbox, hc⟩ := ho.receive_container hserving hi
    have hm := ((mirrors_trial s₁).process r).1
    have hheld : s.receive.container.held (some name) =
        (s₁.process r).container.held (some name) := by rw [hc]; rfl
    by_cases hr : ∃ v, r = .report name .removed v
    · obtain ⟨v, rfl⟩ := hr
      have hgone : ∀ j, ¬s.receive.container.graph.Hosts name j := by
        rintro j ⟨n, hn, _⟩
        rw [hc] at hn
        have hnone := (Trial.stepSpec hsound (.report name .removed v)).gone rfl
        rw [show (s₁.process (.report name .removed v)).container.graph =
          (s.trial.next (.report name .removed v)).graph from hm.graph.symm, hnone] at hn
        cases hn
      refine ⟨Nat.lt_of_lt_of_le h.known hlen, fun hh => absurd hh (hgone i), fun _ => ?_⟩
      by_cases hh : s.container.graph.Hosts name i
      · have hk := h.held hh
        have hdone : (s₁.acceptReport name .removed v).world.status k = some (some (.ok .done)) :=
          status_acceptReport (s := s₁) hk (hl.held ⟨_, hk⟩).1 v
        exact (hl.receive ho hserving hi).2.settled hdone
      · exact hon.settled (h.kept hh)
    · push Not at hr
      refine h.congr hon hlen (fun j hj => ?_) fun hk => ?_
      · rw [hc]
        show (s₁.process r).container.graph.Hosts name j ↔ _
        rw [← hm.graph]
        exact Trial.Sound.hosts (t := s₁.trial) hsound (Request.not_removes hr)
          ((mirrors_trial s).inboxes ▸ hj)
      · rw [hheld, Container.held]
        rcases removals_process s₁ r with
          ⟨b, ticket, rfl, _, heq⟩ | ⟨b, v, rfl, heq⟩ | ⟨_, _, heq⟩
        · rw [heq, Std.ExtTreeMap.getElem?_insert]
          split
          · next hb =>
              rw [Std.LawfulEqCmp.compare_eq_iff_eq] at hb
              subst hb
              exact List.mem_append_left _ hk
          · exact hk
        · have hne : b ≠ name := fun hb => hr v (by rw [hb])
          rw [heq, Std.ExtTreeMap.getElem?_erase, if_neg (by simpa using hne)]
          exact hk
        · rw [heq]
          exact hk
  · have hnone := (ho.unserved (by simp [Container.isServing, hst])).1
    have hgone : ∀ j, ¬s.container.graph.Hosts name j := by
      rintro j ⟨n, hn, _⟩
      simp [hnone name] at hn
    refine ⟨Nat.lt_of_lt_of_le h.known hlen, fun hh => ?_, fun _ => hon.settled (h.kept (hgone i))⟩
    rw [hc] at hh
    exact absurd hh (hgone i)

theorem Bound.run (h : s.Bound name i k) (ho : s.Orderly) (hl : s.Ledger)
    {happened : List Stimulus} (hx : ∀ x ∈ happened, x ≠ .cancel) :
    (s.run happened).Bound name i k := by
  induction happened generalizing s with
  | nil => exact h
  | cons x happened ih =>
      have hs := step_apply ho.uncancelled (hx x List.mem_cons_self)
      exact ih (h.step ho hl hs) (ho.step hs) (hl.step ho hs).1
        fun y hy => hx y (List.mem_cons_of_mem _ hy)

/-- The container takes a request to remove a service that is installed. -/
theorem Bound.of_receive {rest : List Request} (ho : s.Orderly)
    (hs : s.container.isServing = true) (hi : s.container.inbox = .remove name k :: rest)
    (hh : s.container.graph.Hosts name i) : s.receive.Bound name i k := by
  let s₁ : System := { s with container := { s.container with inbox := rest } }
  obtain ⟨stage, inbox, hc⟩ := ho.receive_container hs hi
  have hsound := ho.sound (mirrors_trial s)
  have hlen := (ho.supplying (.received _ _ hs hi)).length
  obtain ⟨n, hn, hni⟩ := id hh
  have hlt : i < s.controllers.length := by
    rw [← hni, ← (mirrors_trial s).inboxes]
    exact hsound.known hn
  have hm := ((mirrors_trial s₁).process (.remove name k)).1
  have hstays : s.receive.container.graph.Hosts name i := by
    rw [hc]
    show (s₁.process (.remove name k)).container.graph.Hosts name i
    rw [← hm.graph]
    exact (Trial.Sound.hosts (t := s₁.trial) hsound (Request.not_removes (by simp))
      ((mirrors_trial s).inboxes ▸ hlt)).mpr hh
  refine ⟨Nat.lt_of_lt_of_le hlt hlen, fun _ => ?_, fun hno => absurd hstays hno⟩
  have hname : s.container.graph.contains name = true := Graph.contains_iff.mpr ⟨n, hn⟩
  rw [hc, Container.held]
  rcases removals_process s₁ (.remove name k) with
    ⟨b, ticket, he, _, heq⟩ | ⟨b, v, he, _⟩ | ⟨_, hno, _⟩
  · obtain ⟨rfl, rfl⟩ := Request.remove.inj he
    rw [heq]
    simp
  · cases he
  · have hfree : s.container.graph.contains name = false := hno name k rfl
    simp [hname] at hfree

end System

end ServiceHost
