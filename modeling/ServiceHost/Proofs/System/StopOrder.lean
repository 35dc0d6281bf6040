import Mathlib.Data.List.Infix
import ServiceHost.Proofs.Courses
import ServiceHost.Proofs.System.LiveSlots
import ServiceHost.Proofs.System.Notices

/-! # Dependents at the time of a stop

A started service is stopped only after everything that depended on it when it was told to stop is
removed. One that is told to stop while it starts does not wait for its dependents: none of them has
been started. -/

namespace ServiceHost

open ServiceHost.Graph (Trial TrialStep Warned)

instance (l : List Signal) : Decidable (Warned l) := inferInstanceAs (Decidable (∃ x ∈ l, x.Stops))

/-! ## The graph -/

/-- An incarnation depends on another, which awaits its removal once it is stopping. -/
structure Graph.Minds (g : Graph) (a : Name) (i : Inbox) (m : Name) (j : Inbox) : Prop where
  depends : ∀ {k : Node}, g.nodes[m]? = some k → k.inbox = j → a ∈ k.dependencies
  awaits : ∀ {n k : Node}, g.nodes[a]? = some n → n.inbox = i → g.nodes[m]? = some k →
    k.inbox = j → n.stopping = true → ∃ p, n.pendingDependents = some p ∧ m ∈ p

namespace Graph.Trial

variable {t : Trial} {a m : Name} {i j : Inbox}

theorem Sound.minds_next (ht : t.Sound) (hj : j < t.inboxes.length)
    (h : t.graph.Minds a i m j) (step : TrialStep) : (t.next step).graph.Minds a i m j := by
  have hspec := stepSpec ht step
  have hold : ∀ {k' : Node}, (t.next step).graph.nodes[m]? = some k' → k'.inbox = j →
      ∃ k : Node, t.graph.nodes[m]? = some k ∧ k.inbox = j ∧ ¬step.Removes m ∧
        k'.dependencies = k.dependencies := by
    rintro k' hk' rfl
    rcases hspec.cases hk' with ⟨k, hk, hremoves, hs⟩ | ⟨hnew, _⟩
    · exact ⟨k, hk, hs.inbox.symm, hremoves, hs.dependencies⟩
    · exact absurd hj (by rw [hnew]; exact Nat.lt_irrefl _)
  refine ⟨fun hk' hj' => ?_, fun {n' k'} hn' hi' hk' hj' hstop => ?_⟩
  · obtain ⟨k, hk, hkj, -, hdependencies⟩ := hold hk' hj'
    exact hdependencies ▸ h.depends hk hkj
  · obtain ⟨k, hk, hkj, hremoves, -⟩ := hold hk' hj'
    rcases hspec.cases hn' with ⟨n, hn, -, hs⟩ | ⟨-, hfresh⟩
    · cases hst : n.stopping with
      | false =>
          have hstops : step.Stops a := (hs.stopping.mp hstop).resolve_left (by simp [hst])
          exact (hs.begun hst hstops m).mpr
            (ht.coherent.mem_dependentsOf.mpr ⟨k, hk, h.depends hk hkj⟩)
      | true =>
          exact (hs.stopped hst m).mpr
            ⟨hremoves, h.awaits hn (hs.inbox ▸ hi') hk hkj hst⟩
    · simp [hfresh] at hstop

theorem Sound.minds_foldl (ht : t.Sound) (hj : j < t.inboxes.length)
    (h : t.graph.Minds a i m j) (steps : List TrialStep) :
    (steps.foldl next t).graph.Minds a i m j := by
  induction steps generalizing t with
  | nil => exact h
  | cons step steps ih =>
      have hspec := stepSpec ht step
      exact ih hspec.sound (Nat.lt_of_lt_of_le hj hspec.grows) (ht.minds_next hj h step)

end Graph.Trial

theorem Course.Leads.advance {state next : State} {l effects : List Effect} (h : Leads state l)
    (ha : state.Advances next effects) : Leads next (l ++ effects) := by
  cases ha with
  | stays => exact (List.append_nil l).symm ▸ h
  | moves hm => exact h.move hm

namespace System

variable {s s' : System} {x : Stimulus} {happened before after : List Stimulus} {i j : Nat}
  {c c' d : Controller} {a m : Name}

theorem Orderly.minds_step (ho : s.Orderly) (hs : Step s x s') (hj : j < s.controllers.length)
    (h : s.container.graph.Minds a i m j) : s'.container.graph.Minds a i m j := by
  rcases container_cases hs with ⟨out, hc⟩ | ⟨_, hc⟩ | ⟨r, rest, hserving, hinbox, rfl⟩ | ⟨_, hc⟩
  · rwa [hc, sent_graph]
  · rwa [hc]
  · have hlen : s.trial.inboxes.length = s.controllers.length := s.mirrors_trial.inboxes
    rw [← (s.mirrors_trial.receive hinbox).1.graph]
    exact (ho.sound s.mirrors_trial).minds_foldl (hlen ▸ hj) h _
  · rwa [hc]

/-- Once a service awaits another it goes on to do so. -/
theorem minds_append (hx : ∀ x ∈ before ++ after, x ≠ .cancel)
    (hj : j < (initial.run before).controllers.length)
    (h : (initial.run before).container.graph.Minds a i m j) :
    (initial.run (before ++ after)).container.graph.Minds a i m j ∧
      j < (initial.run (before ++ after)).controllers.length := by
  refine run_induction_from (P := fun happened =>
    (initial.run happened).container.graph.Minds a i m j ∧
      j < (initial.run happened).controllers.length) ⟨h, hj⟩ ?_ hx
  intro happened x _ ho hs ⟨hminds, hlt⟩
  exact ⟨ho.minds_step hs hlt hminds, Nat.lt_of_lt_of_le hlt (ho.supplying hs).length⟩

/-! ## Who was told to stop -/

/-- A signal to stop lay before a controller at some time of a run. -/
def ToldToStop (happened : List Stimulus) (i : Nat) : Prop :=
  ∃ before ∈ happened.inits, ∃ c ∈ (initial.run before).controllers[i]?, Warned c.signals

instance (happened : List Stimulus) (i : Nat) : Decidable (ToldToStop happened i) :=
  inferInstanceAs (Decidable (∃ before ∈ happened.inits, ∃ c ∈ (initial.run before).controllers[i]?,
    Warned c.signals))

theorem ToldToStop.append (h : ToldToStop before i) (after : List Stimulus) :
    ToldToStop (before ++ after) i := by
  obtain ⟨p, hp, c, hc, hw⟩ := h
  rw [List.mem_inits] at hp
  exact ⟨p, (List.mem_inits _ _).mpr (hp.trans (List.prefix_append _ _)), c, hc, hw⟩

theorem toldToStop_of_warned (hc : (initial.run happened).controllers[i]? = some c)
    (hw : Warned c.signals) : ToldToStop happened i :=
  ⟨happened, (List.mem_inits _ _).mpr (List.prefix_refl _), c, hc, hw⟩

/-- A turn that leaves a controller asked to stop finds it asked before, or takes such a signal. -/
theorem Orderly.asked_take (ho : s.Orderly) (hc : s.controllers[i]? = some c)
    (hcan : c.canTake = true) (task : Nat)
    (h : ((c.take i s.world).final task).state = .starting true ∨
      ((c.take i s.world).final task).state = .draining) :
    (c.state = .starting true ∨ c.state = .draining) ∨ Warned c.signals := by
  rw [Turn.final_state] at h
  rcases Controller.take_cases hcan i s.world with
    ⟨_, _, _, _, _, hskipped⟩ | ⟨e, rest, next, hi, _, hm, hmoved⟩
  · rw [hskipped.controller] at h
    exact .inl h
  · have hmem : e.signal ∈ c.signals := by simp [c.signals_cons hi, Message.signal?]
    rw [hmoved.state] at h
    generalize c.effects = effects at hm
    generalize hst : c.state = state at hm
    generalize hsignal : e.signal = signal at hm
    cases hm with
    | drain hx => exact .inr ⟨_, hsignal ▸ hmem, hx⟩
    | note asked hx =>
        rcases hx with hx | rfl
        · exact .inr ⟨_, hsignal ▸ hmem, hx⟩
        · -- its dependents are gone, so it was told to stop before
          cases asked with
          | true => exact .inl (.inl rfl)
          | false =>
              obtain ⟨n, hn, hni⟩ := ho.hosts_of_ne_removed hc (by simp [hst])
              obtain ⟨b, hb, hl⟩ := ho.consistent.linked hn
              obtain rfl := Option.some.inj (hc.symm.trans (hni ▸ hb))
              have hreleased := hl.stopped (hsignal ▸ hmem)
              exact .inr (hl.warned hreleased (by simp [hst, State.phase]) (by simp [hst])).warned
    | _ => simp at h

/-- Whoever is asked to stop, and has not left its service yet, was told so. -/
theorem toldToStop_of_asked (hx : ∀ x ∈ happened, x ≠ .cancel)
    (hc : (initial.run happened).controllers[i]? = some c)
    (h : (c.state = .starting true ∨ c.state = .draining) ∨ Warned c.signals) :
    ToldToStop happened i := by
  refine run_induction (P := fun happened => ∀ {c : Controller},
    (initial.run happened).controllers[i]? = some c →
    (c.state = .starting true ∨ c.state = .draining) ∨ Warned c.signals →
    ToldToStop happened i) ?_ ?_ hx hc h
  · intro c hc
    simp [initial, run] at hc
  · intro happened x ho hs ih c' hc' h
    rcases h with h | hw
    · cases hturn : (initial.run happened).turn? x with
      | none =>
          have hstay := allStay_apply (initial.run happened) hturn
          rw [← run_snoc] at hstay
          rcases hstay.stays hc' with ⟨c, hc, hstays⟩ | ⟨-, hw, -⟩
          · exact (ih hc (.inl (hstays.state ▸ h))).append [x]
          · simp [hw] at h
      | some turn =>
          obtain ⟨j, t⟩ := turn
          obtain ⟨b, hb, hturns, happly⟩ := turns_of_turn? hturn
          have ha := applies_applyTurn (t := t) (List.getElem?_eq_some_iff.mp hb).1
          rw [← happly, ← run_snoc] at ha
          rcases ha.cases_controller hc' with ⟨rfl, rfl⟩ | ⟨_, hc'⟩
          · refine (ih hb ?_).append [x]
            cases hturns with
            | took hcan => exact ho.asked_take hb hcan _ h
            | resumed hwake =>
                rw [Turn.final_state, (Controller.resume_resumed hwake j).alike.state] at h
                exact .inl h
          · exact (ih hc' (.inl h)).append [x]
    · exact toldToStop_of_warned hc' hw

/-! ## Stops -/

/-- Over a whole run, what a controller carried out led to its state. -/
theorem leads_run (hx : ∀ x ∈ happened, x ≠ .cancel)
    (hc : (initial.run happened).controllers[i]? = some c) :
    Course.Leads c.state (initial.trace happened i) := by
  refine run_induction (P := fun happened => (∀ x ∈ happened, x ≠ .cancel) →
    ∀ {i : Nat} {c : Controller}, (initial.run happened).controllers[i]? = some c →
      Course.Leads c.state (initial.trace happened i)) ?_ ?_ hx hx hc
  · intro _ i c hc
    simp [initial, run] at hc
  · intro happened x ho hs h hx i c' hc'
    have hbefore : ∀ y ∈ happened, y ≠ .cancel := fun y hy => hx y (List.mem_append_left _ hy)
    rw [trace_snoc]
    rcases hs.advances hc' with ⟨c, hc, ha⟩ | ⟨hlen, hw⟩
    · exact (h hbefore hc).advance ha
    · rw [(hasRun hbefore).none hlen, effects_of_length_le hlen, hw]
      exact .waiting

/-- A controller only goes on. -/
theorem phase_le_append (hx : ∀ x ∈ before ++ after, x ≠ .cancel)
    (hc : (initial.run before).controllers[i]? = some c)
    (hc' : (initial.run (before ++ after)).controllers[i]? = some c') :
    c.state.phase ≤ c'.state.phase := by
  have hgoes : ∃ b : Controller, (initial.run (before ++ after)).controllers[i]? = some b ∧
      c.state.phase ≤ b.state.phase := by
    refine run_induction_from (P := fun happened => ∃ b : Controller,
      (initial.run happened).controllers[i]? = some b ∧ c.state.phase ≤ b.state.phase)
      ⟨c, hc, Nat.le_refl _⟩ ?_ hx
    intro happened x _ ho hs ⟨b, hb, hle⟩
    obtain ⟨b', hb'⟩ := (ho.supplying hs).exists_controller hb
    rcases hs.advances hb' with ⟨_, hb₁, ha⟩ | ⟨hlen, -⟩
    · obtain rfl := Option.some.inj (hb.symm.trans hb₁)
      exact ⟨b', hb', Nat.le_trans hle ha.phase_le⟩
    · exact absurd (List.getElem?_eq_some_iff.mp hb).1 (Nat.not_lt.mpr hlen)
  obtain ⟨b, hb, hle⟩ := hgoes
  rwa [← Option.some.inj (hb.symm.trans hc')]

/-- Whoever depends on a service that was not told to stop yet will be awaited. -/
theorem minds_of_untold (hx : ∀ x ∈ happened, x ≠ .cancel)
    (htold : ¬ToldToStop happened i)
    (hphase : ∀ c, (initial.run happened).controllers[i]? = some c → c.state.phase ≤ 3)
    (hd : (initial.run happened).controllers[j]? = some d) (ha : a ∈ d.plan.dependencies)
    (m : Name) : (initial.run happened).container.graph.Minds a i m j := by
  have hcons := (orderly_run hx).consistent
  refine ⟨fun hk hj => ?_, fun {n k} hn hi hk hj hstop => ?_⟩
  · obtain ⟨b, hb, hl⟩ := hcons.linked hk
    obtain rfl := Option.some.inj (hd.symm.trans (hj ▸ hb))
    exact hl.dependencies ▸ ha
  · obtain ⟨c, hc, hl⟩ := hcons.linked hn
    have hthree := hphase c (hi ▸ hc)
    refine absurd (toldToStop_of_asked hx (hi ▸ hc) ?_) htold
    rcases hcons.doomed hn hc (.inl hstop) with hleaving | hstarting | hwarned
    · refine .inl (.inr (State.eq_of_phase_eq (Nat.le_antisymm hthree hleaving) ?_))
      have hleaving : 3 ≤ c.state.phase := hleaving
      omega
    · exact .inl (.inl hstarting)
    · exact .inr hwarned

/-- A stop is invoked on a service that starts, or on one that was started and is released. -/
theorem starting_or_released_of_stop (ho : s.Orderly) {interrupted : Bool}
    (hc : s.controllers[i]? = some c) (h : .invokeStop interrupted ∈ s.effects x i) :
    (∃ asked, c.state = .starting asked) ∨ (c.state = .draining ∧
      ∃ n, s.container.graph.nodes[c.plan.name]? = some n ∧ n.inbox = i ∧ n.Released) := by
  obtain ⟨b, rfl, hb, hcan, he, -⟩ := take_of_effects h
  obtain rfl := Option.some.inj (hc.symm.trans hb)
  rcases Controller.take_cases hcan i s.world with
    ⟨_, _, _, _, hnone, _⟩ | ⟨e, rest, next, hi, _, hm, -⟩
  · simp [hnone] at he
  · have hmem : e.signal ∈ c.signals := by simp [c.signals_cons hi, Message.signal?]
    generalize c.effects = effects at hm he
    generalize hst : c.state = state at hm
    generalize hsignal : e.signal = signal at hm hmem
    cases hm with
    | late => exact .inl ⟨true, rfl⟩
    | cut asked => exact .inl ⟨asked, rfl⟩
    | release =>
        obtain ⟨n, hn, hni⟩ := ho.hosts_of_ne_removed hc (by simp [hst])
        obtain ⟨b, hb, hl⟩ := ho.consistent.linked hn
        obtain rfl := Option.some.inj (hc.symm.trans (hni ▸ hb))
        exact .inr ⟨rfl, n, hn, hni, hl.stopped hmem⟩
    | _ => simp at he

/-- When a service is stopped, whoever was installed to depend on it before it was told to stop is
removed, or it waits and was never started because the service never got to be started either. -/
theorem dependents_at_stop (hx : ∀ x ∈ before ++ after, x ≠ .cancel) {interrupted : Bool}
    (hstop : .invokeStop interrupted ∈ (initial.run (before ++ after)).effects x i)
    (hc : (initial.run (before ++ after)).controllers[i]? = some c)
    (htold : ¬ToldToStop before i) (hd : (initial.run before).controllers[j]? = some d)
    (ha : c.plan.name ∈ d.plan.dependencies) :
    ∃ d', (initial.run (before ++ after)).controllers[j]? = some d' ∧ d'.plan = d.plan ∧
      (d'.state = .removed ∨
        (.completeStart ∉ initial.trace (before ++ after) i ∧ d'.state = .waiting ∧
          .injectAndStart ∉ initial.trace (before ++ after) j)) := by
  have hxb : ∀ y ∈ before, y ≠ .cancel := fun y hy => hx y (List.mem_append_left _ hy)
  have ho := orderly_run hx
  obtain ⟨d', hd', hplan⟩ := plan_append hx hd
  refine ⟨d', hd', hplan, or_iff_not_imp_left.mpr fun hgone => ?_⟩
  obtain ⟨k, hk, hkj⟩ := ho.hosts_of_ne_removed hd' hgone
  obtain ⟨b, hb, hlk⟩ := ho.consistent.linked hk
  obtain rfl := Option.some.inj (hd'.symm.trans (hkj ▸ hb))
  have hdep : c.plan.name ∈ k.dependencies := hlk.dependencies ▸ hplan ▸ ha
  rcases starting_or_released_of_stop ho hc hstop with ⟨asked, hst⟩ | ⟨hst, n, hn, hni, hrel⟩
  · have hwaiting : d'.state = .waiting := by
      by_contra hno
      have hphase : 0 < d'.state.phase := Nat.pos_of_ne_zero (State.phase_eq_zero.not.mpr hno)
      have hresolved := hlk.resolved d'.state (by simp) hphase hgone
      obtain ⟨n, b, hn, hb, huse⟩ := ho.consistent.inUse hk hresolved hdep
      obtain ⟨n', hn', hni⟩ := ho.hosts_of_ne_removed hc (by simp [hst])
      obtain rfl := Option.some.inj (hn.symm.trans hn')
      obtain rfl := Option.some.inj (hc.symm.trans (hni ▸ hb))
      simp [hst, State.InUse] at huse
    refine ⟨?_, hwaiting, ((hasRun hx).ran hd').unstarted hwaiting⟩
    have hleads := leads_run hx hc
    rw [hst] at hleads
    generalize initial.trace (before ++ after) i = l at hleads
    cases hleads with
    | starting => simp
  · have hphase : ∀ b, (initial.run before).controllers[i]? = some b → b.state.phase ≤ 3 := by
      intro b hb
      have := phase_le_append hx hb hc
      simpa [hst, State.phase] using this
    have hminds := (minds_append hx (List.getElem?_eq_some_iff.mp hd).1
      (minds_of_untold hxb htold hphase hd ha d'.plan.name)).1
    obtain ⟨p, hp, -⟩ := hminds.awaits hn hni hk hkj hrel.1
    simp [hrel.2] at hp

/-- The service others depend on is removed, up to its stop. -/
def baseStops : List Stimulus :=
  [.request (.request 3) (.remove "base"), .move .receive, .move (.take 1), .move (.take 0),
    .move .receive, .move .receive, .move (.take 1), .move (.take 1), .move .receive,
    .move .receive]

theorem dependents_baseStops : (∀ x ∈ pairStarts ++ baseStops, x ≠ .cancel) ∧
    ¬ToldToStop pairStarts 0 ∧ ∃ c d d' : Controller,
      (initial.run (pairStarts ++ baseStops)).controllers[0]? = some c ∧
      (initial.run pairStarts).controllers[1]? = some d ∧
      c.plan.name ∈ d.plan.dependencies ∧
      .invokeStop false ∈
        (initial.run (pairStarts ++ baseStops)).effects (.move (.take 0)) 0 ∧
      (initial.run (pairStarts ++ baseStops)).controllers[1]? = some d' ∧ d'.state = .removed := by
  have hx : ∀ x ∈ pairStarts ++ baseStops, x ≠ .cancel := by simp [pairStarts, baseStops]
  have htold : ¬ToldToStop pairStarts 0 := by decide +kernel
  have hbase : (initial.run (pairStarts ++ baseStops)).controllers[0]?.map (·.plan.name) =
      some "base" := by decide +kernel
  have htop : (initial.run pairStarts).controllers[1]?.map
      (fun d => decide ("base" ∈ d.plan.dependencies)) = some true := by decide +kernel
  have hstop : .invokeStop false ∈
      (initial.run (pairStarts ++ baseStops)).effects (.move (.take 0)) 0 := by decide +kernel
  have hcompleted : .completeStart ∈ initial.trace (pairStarts ++ baseStops) 0 := by
    decide +kernel
  obtain ⟨c, hc, hname⟩ := Option.map_eq_some_iff.mp hbase
  obtain ⟨d, hd, hmem⟩ := Option.map_eq_some_iff.mp htop
  have hdep : c.plan.name ∈ d.plan.dependencies := hname ▸ of_decide_eq_true hmem
  obtain ⟨d', hd', -, hremoved⟩ := dependents_at_stop hx hstop hc htold hd hdep
  exact ⟨hx, htold, c, d, d', hc, hd, hdep, hstop, hd',
    hremoved.resolve_right fun h => h.1 hcompleted⟩

/-- A service whose start takes time and may be cut short. -/
def slowService (name : Name) : Service :=
  { plainService name [] with callbacks := .scripted false [.runAsync ⟨100, .done⟩ true false] [] }

/-- A service whose start is cut short is stopped while its dependents still wait. -/
theorem not_removed_of_interrupted : ¬∀ (before after : List Stimulus) (x : Stimulus) (i j : Nat)
    (c d : Controller) (interrupted : Bool), (∀ x ∈ before ++ after, x ≠ .cancel) →
    .invokeStop interrupted ∈ (initial.run (before ++ after)).effects x i →
    (initial.run (before ++ after)).controllers[i]? = some c → ¬ToldToStop before i →
    (initial.run before).controllers[j]? = some d → c.plan.name ∈ d.plan.dependencies →
    ∃ d', (initial.run (before ++ after)).controllers[j]? = some d' ∧ d'.state = .removed := by
  intro h
  let before : List Stimulus :=
    [.request (.request 0) .start, .request (.request 1) (.install (slowService "base")),
      .request (.request 2) (.install (plainService "top" ["base"])), .move .receive,
      .move .receive, .move (.take 0), .move .receive]
  let after : List Stimulus := [.request (.request 3) (.remove "base"), .move .receive]
  have hbase : (initial.run (before ++ after)).controllers[0]?.map (·.plan.name) =
      some "base" := by decide +kernel
  have htop : (initial.run before).controllers[1]?.map
      (fun d => decide ("base" ∈ d.plan.dependencies)) = some true := by decide +kernel
  obtain ⟨c, hc, hname⟩ := Option.map_eq_some_iff.mp hbase
  obtain ⟨d, hd, hmem⟩ := Option.map_eq_some_iff.mp htop
  obtain ⟨d', hd', hremoved⟩ := h before after (.move (.take 0)) 0 1 c d true
    (by simp [before, after]) (by decide +kernel) hc (by decide +kernel) hd
    (hname ▸ of_decide_eq_true hmem)
  have hwaiting : (initial.run (before ++ after)).controllers[1]?.map (·.state) =
      some .waiting := by decide +kernel
  rw [hd', Option.map_some, hremoved] at hwaiting
  cases hwaiting

end System

end ServiceHost
