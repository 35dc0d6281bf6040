import Mathlib.Data.List.Infix
import ServiceHost.Proofs.System.Composites
import ServiceHost.Proofs.System.LiveSlots
import ServiceHost.Proofs.System.Notices
import ServiceHost.Proofs.System.Removal

/-! # Services created in a start

A service that another creates as it starts depends on it. It goes with it, if the container takes
it in before the other begins to stop; if not, it waits for good and is left. -/

namespace ServiceHost

open ServiceHost.Graph (Trial TrialStep signalsTo Warned)

/-- The plan of a service or composite that is created in the start of another. -/
inductive Plan.Offspring (parent : Name) : Plan → Prop
  | service (d : Service) : Offspring parent (d.plan (some parent))
  | composite (u : Composite) : Offspring parent (u.plan (some parent))

theorem Plan.Offspring.depends {parent : Name} {plan : Plan} (h : plan.Offspring parent) :
    parent ∈ plan.dependencies := by
  cases h with
  | service d => exact (d.mem_plan_dependencies_or _).mpr (.inl rfl)
  | composite u =>
      rw [CompositeDeclaration.plan, Plan.mem_dependOn_foldl]
      simp

/-- Whoever depends on a service hears of it when that begins to stop. -/
theorem Graph.Trial.Sound.stays_or_warned {t : Trial} (ht : t.Sound) {steps : List TrialStep}
    {a m : Name} {k n : Node} (hk : t.graph.nodes[a]? = some k) (hs : k.stopping = false)
    (hn : t.graph.nodes[m]? = some n) (ha : a ∈ n.dependencies)
    (hm : ∀ step ∈ steps, ¬step.Removes m) :
    (∃ k', (steps.foldl Trial.next t).graph.nodes[a]? = some k' ∧ k'.inbox = k.inbox ∧
        k'.stopping = false) ∨
      Warned (signalsTo n.inbox (t.trace steps)) := by
  induction steps generalizing t k n with
  | nil => exact .inl ⟨k, hk, rfl, hs⟩
  | cons step steps ih =>
      have hspec := Trial.stepSpec ht step
      rw [Trial.trace, signalsTo_append, Graph.warned_append]
      by_cases hstops : step.Stops a
      · exact .inr (.inl (ht.warned hk hs hstops hn ha))
      · obtain ⟨k', hk', hsk⟩ := hspec.survives hk fun hr => hstops hr.stops
        obtain ⟨n', hn', hsn⟩ := hspec.survives hn (hm step List.mem_cons_self)
        have hs' : k'.stopping = false := by
          rw [← Bool.not_eq_true, hsk.stopping]
          simp [hs, hstops]
        rw [← hsk.inbox, ← hsn.inbox]
        exact (ih hspec.sound hk' hs' hn' (hsn.dependencies ▸ ha)
          fun s h => hm s (List.mem_cons_of_mem _ h)).imp_right .inr

/-- The removal of a service is reported only once its controller is through with it. -/
theorem Linked.ne_removed {m : Name} {n : Node} {c : Controller} {r : Request}
    {rest inbox : List Request} {v : Option Value} (h : Linked m n c (reportsOf m inbox))
    (hi : inbox = r :: rest) (hc : c.state ≠ .removed) : r ≠ .report m .removed v := by
  rintro rfl
  have hmem : State.removed ∈ n.outlook (reportsOf m inbox) := by
    rw [hi, Consistent.reportsOf_cons_self]
    simp [Node.outlook]
  exact hc (State.phase_eq_five.mp (Nat.le_antisymm c.state.phase_le_five (h.upTo _ hmem)))

/-- The start of a service begins with the next signal, or is suspended. -/
def Controller.InStart (c : Controller) : Prop :=
  c.state = .waiting ∨ ∃ callback ∈ c.callback, callback.phase = .start

namespace System

variable {s s' : System} {x : Stimulus} {happened before after : List Stimulus} {i j : Nat}
  {a : Name} {c d : Controller} {t : Turn} {plan : Plan} {k : Ticket} {r : Request}

/-! ## Who created a service -/

/-- As its service starts, a controller asks for the installation of another. -/
inductive Creates (s : System) (x : Stimulus) (i : Nat) : Name → Plan → Ticket → Prop
  | asks {c : Controller} {t : Turn} {plan : Plan} {k : Ticket} (hc : s.controllers[i]? = some c)
    (hx : s.turn? x = some (i, t)) (hin : c.InStart) (hr : .install plan k ∈ t.requests)
    (hp : plan.Offspring c.plan.name) : Creates s x i c.plan.name plan k

/-- In the course of a run, a service was asked for in the start of another. -/
def Created (happened : List Stimulus) (i : Nat) (a : Name) (plan : Plan) (k : Ticket) : Prop :=
  ∃ before x after, happened = before ++ x :: after ∧ (initial.run before).Creates x i a plan k

theorem created_snoc : Created (happened ++ [x]) i a plan k ↔
    Created happened i a plan k ∨ (initial.run happened).Creates x i a plan k := by
  constructor
  · rintro ⟨before, x', after, he, h⟩
    rcases append_eq_split.mp he with ⟨rfl, rfl, _⟩ | ⟨after, _, rfl⟩
    · exact .inr h
    · exact .inl ⟨before, x', after, rfl, h⟩
  · rintro (⟨before, x', after, rfl, h⟩ | h)
    · exact ⟨before, x', after ++ [x], by simp, h⟩
    · exact ⟨happened, x, [], rfl, h⟩

theorem Turns.pays (h : s.Turns i c t) : Turn.Pays s.world c t := by
  cases h with
  | took hcan => exact Turn.pays_take hcan i s.world
  | resumed hwake => exact Turn.pays_resume hwake i

theorem Turns.fresh (h : s.Turns i c t) (hr : r ∈ t.requests) (hk : r.ticket? = some k) :
    s.world.pledges.length ≤ k ∧ k < t.world.pledges.length := by
  obtain ⟨w, hsettles, hasked⟩ := h.pays.asks
  obtain ⟨hle, hopen⟩ := hasked.of_mem (List.mem_filterMap.mpr ⟨r, hr, hk⟩)
  refine ⟨hsettles.length ▸ hle, Nat.lt_of_not_le fun hlt => ?_⟩
  rw [World.status_eq_none.mpr hlt] at hopen
  cases hopen

theorem Creates.depends (h : s.Creates x i a plan k) : a ∈ plan.dependencies := by
  cases h with
  | asks hc hx hin hr hp => exact hp.depends

theorem Creates.fresh (h : s.Creates x i a plan k) :
    s.world.pledges.length ≤ k ∧ k < (s.apply x).world.pledges.length := by
  cases h with
  | @asks c t plan k hc hx hin hr hp =>
      obtain ⟨b, -, hturns, happly⟩ := turns_of_turn? hx
      rw [happly, (settles_applyTurn s i t).length]
      exact hturns.fresh hr rfl

/-- A service that starts is registered, and none of its reports is under way. -/
theorem Orderly.unreported (ho : s.Orderly) (hc : s.controllers[i]? = some c) (h : c.InStart) :
    s.container.graph.Hosts c.plan.name i ∧ reportsOf c.plan.name s.container.inbox = [] := by
  have hphase : c.state.phase ≤ 1 := by
    rcases h with h | ⟨callback, hcallback, hstart⟩
    · simp [h, State.phase]
    · have hin : callback.phase.In c.state := (ho.attended hc).callback callback hcallback
      rw [hstart] at hin
      exact Nat.le_of_eq hin
  have hne : c.state ≠ .removed := fun he => by simp [he, State.phase] at hphase
  obtain ⟨n, hn, hi⟩ := ho.hosts_of_ne_removed hc hne
  obtain ⟨b, hb, hl⟩ := ho.consistent.linked hn
  obtain rfl := Option.some.inj (hc.symm.trans (hi ▸ hb))
  have hzero : ∀ st ∈ n.outlook (reportsOf c.plan.name s.container.inbox), st.phase = 0 := by
    intro st hst
    rcases h with h | ⟨callback, hcallback, -⟩
    · have hle := hl.upTo st hst
      rw [h] at hle
      exact Nat.le_zero.mp hle
    · have hlt := hl.suspended (Option.isSome_iff_exists.mpr ⟨callback, hcallback⟩) st hst
      omega
  refine ⟨⟨n, hn, hi⟩, ?_⟩
  have hascending := hl.ascending
  cases hreports : reportsOf c.plan.name s.container.inbox with
  | nil => rfl
  | cons p l =>
      rw [hreports] at hzero hascending
      have hlt : n.state.phase < p.1.phase := List.rel_of_pairwise_cons hascending (by simp)
      have hp := hzero p.1 (by simp [Node.outlook])
      omega

/-! ## The order of requests -/

theorem append_eq_append_cons {α : Type} {l l' p r : List α} {x : α}
    (h : l ++ l' = p ++ x :: r) :
    (∃ r', l = p ++ x :: r') ∨ ∃ p', p = l ++ p' ∧ l' = p' ++ x :: r := by
  rcases List.append_eq_append_iff.mp h with ⟨p', rfl, hrest⟩ | ⟨q, rfl, hrest⟩
  · exact .inr ⟨p', rfl, hrest⟩
  · cases q with
    | nil => exact .inr ⟨[], by simp, by simpa using hrest.symm⟩
    | cons y q =>
        obtain ⟨rfl, -⟩ := List.cons.inj hrest
        exact .inl ⟨q, rfl⟩

theorem pledges_le_append (hx : ∀ x ∈ before ++ after, x ≠ .cancel) :
    (initial.run before).world.pledges.length ≤
      (initial.run (before ++ after)).world.pledges.length := by
  refine run_induction_from (P := fun happened => (initial.run before).world.pledges.length ≤
    (initial.run happened).world.pledges.length) (Nat.le_refl _) ?_ hx
  intro happened x hxb ho hs hle
  obtain ⟨made, gone, -, hserves⟩ := ho.deals (ledger_run hxb) (owes_run hxb) hs
  rw [hserves.length]
  exact Nat.le_trans hle (Nat.le_add_right _ _)

theorem Created.lt (hx : ∀ x ∈ happened, x ≠ .cancel) (h : Created happened i a plan k) :
    k < (initial.run happened).world.pledges.length := by
  obtain ⟨before, x, after, rfl, hcreates⟩ := h
  rw [List.append_cons] at hx ⊢
  refine Nat.lt_of_lt_of_le ?_ (pledges_le_append hx)
  rw [run_snoc]
  exact hcreates.fresh.2

/-- What was asked for with a promise made earlier was asked for earlier. -/
theorem Created.of_lt (hx : ∀ x ∈ before ++ after, x ≠ .cancel)
    (h : Created (before ++ after) i a plan k)
    (hk : k < (initial.run before).world.pledges.length) : Created before i a plan k := by
  induction after using List.reverseRecOn with
  | nil => simpa using h
  | append_singleton after x ih =>
      rw [← List.append_assoc] at hx h
      have hxb : ∀ y ∈ before ++ after, y ≠ .cancel := fun y hy => hx y (List.mem_append_left _ hy)
      rcases created_snoc.mp h with h | h
      · exact ih hxb h
      · exact absurd hk (Nat.not_lt.mpr (Nat.le_trans (pledges_le_append hxb) h.fresh.1))

/-- A step adds requests to the inbox, each with a new promise, and then reports. -/
structure Queues (s : System) (asked told : List Request) (s' : System) : Prop where
  inbox : s'.container.inbox = s.container.inbox ++ (asked ++ told)
  graph : s'.container.graph = s.container.graph
  asked : ∀ r ∈ asked, ∃ k, r.ticket? = some k ∧ s.world.pledges.length ≤ k
  told : ∀ r ∈ told, r.ticket? = none

theorem Queues.of_container (h : s'.container = s.container) : s.Queues [] [] s' :=
  ⟨by simp [h], by rw [h], by simp, by simp⟩

theorem Queues.of_sent {asked told : List Request}
    (h : s'.container = s.container.sent (asked ++ told))
    (hasked : ∀ r ∈ asked, ∃ k, r.ticket? = some k ∧ s.world.pledges.length ≤ k)
    (htold : ∀ r ∈ told, r.ticket? = none) : ∃ asked told, s.Queues asked told s' := by
  by_cases hs : s.container.isServing = true
  · exact ⟨asked, told, by rw [h, Container.sent, if_pos hs], by rw [h, sent_graph], hasked, htold⟩
  · exact ⟨[], [], .of_container (h.trans (sent_of_not_serving (by simpa using hs) _))⟩

/-- What was not in the inbox before comes with a new promise, and after no report but those that
were there. -/
theorem Queues.split {asked told pre post : List Request} (h : s.Queues asked told s')
    (hr : r.ticket? = some k) (hi : s'.container.inbox = pre ++ r :: post) :
    (∃ post', s.container.inbox = pre ++ r :: post') ∨ (s.world.pledges.length ≤ k ∧
      ∃ asked', pre = s.container.inbox ++ asked' ∧ ∀ a, reportsOf a asked' = []) := by
  rw [h.inbox] at hi
  rcases append_eq_append_cons hi with hold | ⟨asked', rfl, hout⟩
  · exact .inl hold
  · rcases append_eq_append_cons hout with ⟨rest, rfl⟩ | ⟨told', -, rfl⟩
    · obtain ⟨k', hk', hle⟩ := h.asked r (by simp)
      obtain rfl := Option.some.inj (hr.symm.trans hk')
      refine .inr ⟨hle, asked', rfl, fun a => reportsOf_requests fun q hq => ?_⟩
      obtain ⟨_, hsome, -⟩ := h.asked q (List.mem_append_left _ hq)
      exact Option.isSome_iff_exists.mpr ⟨_, hsome⟩
    · simp [h.told r (by simp)] at hr

/-- A step adds to the inbox, or the container takes a request. -/
theorem Step.inbox_cases (hs : Step s x s') : (∃ asked told, s.Queues asked told s') ∨
    ∃ r rest, s.container.isServing = true ∧ s.container.inbox = r :: rest ∧ s' = s.receive := by
  have hturn : ∀ {i : Nat} {c : Controller} {t : Turn}, s.controllers[i]? = some c →
      s.Turns i c t → ∃ asked told, s.Queues asked told (s.applyTurn i t) := by
    intro i c t hc hturns
    refine Queues.of_sent (applies_applyTurn (List.getElem?_eq_some_iff.mp hc).1).container
      (fun r hr => ?_) (List.filterMap_eq_nil_iff.mp hturns.pays.reported)
    obtain ⟨w, -, hasked⟩ := hturns.pays.asks
    obtain ⟨k, hk⟩ := Option.isSome_iff_exists.mp (hasked.ticket_isSome r hr)
    exact ⟨k, hk, (hturns.fresh hr hk).1⟩
  cases hs with
  | calm hcalm => exact .inl ⟨[], [], .of_container hcalm.container⟩
  | opened origin hst hu =>
      exact .inl ⟨[], [], by simp [hu.container], by rw [hu.container], by simp, by simp⟩
  | asked origin o requests w ha =>
      have hsent : ({ s with world := w }.sendAll requests).container =
          s.container.sent (requests ++ []) := by
        rw [List.append_nil]
        exact (sends_sendAll { s with world := w } requests).container
      refine .inl (Queues.of_sent hsent (fun r hr => ?_) (by simp))
      · obtain ⟨k, hk⟩ := Option.isSome_iff_exists.mp (ha.ticket_isSome r hr)
        exact ⟨k, hk, (ha.of_mem (List.mem_filterMap.mpr ⟨r, hr, hk⟩)).1⟩
  | received r rest hserving hi => exact .inr ⟨r, rest, hserving, hi, rfl⟩
  | finished hst hq =>
      have hu := unmoved_finish s
      exact .inl ⟨[], [], by simp [hu.container], by rw [hu.container], by simp, by simp⟩
  | took i c hc hcan => exact .inl (hturn hc (.took hcan))
  | resumed i c callback answer hc hwake => exact .inl (hturn hc (.resumed hwake))
  | joined id task outcome hj => exact .inl ⟨[], [], .of_container hj.container⟩

theorem lt_of_mem_inbox (hx : ∀ x ∈ happened, x ≠ .cancel)
    (hr : r ∈ (initial.run happened).container.inbox) (hk : r.ticket? = some k) :
    k < (initial.run happened).world.pledges.length := by
  have hopen := ((ledger_run hx).asked (List.mem_filterMap.mpr ⟨r, hr, hk⟩)).1
  refine Nat.lt_of_not_le fun hle => ?_
  rw [World.status_eq_none.mpr hle] at hopen
  cases hopen

/-- While the request to install what it created is under way, a service stays registered, and none
of its reports is ahead of the request. -/
def Held (s : System) (i : Nat) (a : Name) (plan : Plan) (k : Ticket) : Prop :=
  ∀ pre post : List Request, s.container.inbox = pre ++ .install plan k :: post →
    s.container.graph.Hosts a i ∧ reportsOf a pre = []

/-- A service is held as soon as it has created another. -/
theorem Creates.held (h : s.Creates x i a plan k) (ho : s.Orderly) (hs : Step s x s')
    (hnew : .install plan k ∉ s.container.inbox) : s'.Held i a plan k := by
  intro pre post hi
  rcases hs.inbox_cases with ⟨asked, told, hq⟩ | ⟨r, rest, hserving, hinbox, rfl⟩
  · rcases hq.split rfl hi with ⟨post', hold⟩ | ⟨-, asked', rfl, hnone⟩
    · exact absurd (by simp [hold]) hnew
    · cases h with
      | asks hc hx hin hr hp =>
          obtain ⟨hhosts, hreports⟩ := ho.unreported hc hin
          rw [hq.graph, reportsOf_append, hreports, hnone]
          exact ⟨hhosts, rfl⟩
  · rcases ho.receive_inbox hserving hinbox with hrest | ⟨hrest, -⟩
    · exact absurd (by simp [hinbox, ← hrest, hi]) hnew
    · simp [hrest] at hi

/-- A service is held until the request is taken. -/
theorem Held.step (h : s.Held i a plan k) (ho : s.Orderly) (hs : Step s x s')
    (hk : k < s.world.pledges.length) : s'.Held i a plan k := by
  intro pre post hi
  rcases hs.inbox_cases with ⟨asked, told, hq⟩ | ⟨r, rest, hserving, hinbox, rfl⟩
  · rcases hq.split rfl hi with ⟨post', hold⟩ | ⟨hle, -⟩
    · rw [hq.graph]
      exact h pre post' hold
    · exact absurd hk (Nat.not_lt.mpr hle)
  · rcases ho.receive_inbox hserving hinbox with hrest | ⟨hrest, -⟩
    · rw [← hrest, hi, ← List.cons_append] at hinbox
      obtain ⟨hhosts, hreports⟩ := h _ _ hinbox
      rw [← List.singleton_append, reportsOf_append, List.append_eq_nil_iff] at hreports
      refine ⟨ho.hosts_receive hinbox hhosts ?_, hreports.2⟩
      rintro v rfl
      simp [reportsOf] at hreports
    · simp [hrest] at hi

theorem held_run (hx : ∀ x ∈ happened, x ≠ .cancel) (h : Created happened i a plan k) :
    (initial.run happened).Held i a plan k := by
  refine run_induction (P := fun happened => (∀ x ∈ happened, x ≠ .cancel) →
    Created happened i a plan k → (initial.run happened).Held i a plan k) ?_ ?_ hx hx h
  · intro _ _ pre post hi
    simp [initial, run, Container.fresh] at hi
  · intro happened x ho hs ih hx h
    have hxb : ∀ y ∈ happened, y ≠ .cancel := fun y hy => hx y (List.mem_append_left _ hy)
    rcases created_snoc.mp h with h | h
    · exact (ih hxb h).step ho hs (h.lt hxb)
    · refine h.held ho hs fun hmem => ?_
      exact absurd (lt_of_mem_inbox hxb hmem rfl) (Nat.not_lt.mpr h.fresh.1)

/-! ## What becomes of a service that was created -/

/-- A service depends on an incarnation that has not begun to stop, or is on its way out. -/
def Attached (s : System) (a : Name) (i j : Nat) : Prop :=
  ∃ d, s.controllers[j]? = some d ∧ a ∈ d.plan.dependencies ∧
    (d.Doomed ∨ ∃ n, s.container.graph.nodes[a]? = some n ∧ n.inbox = i ∧ n.stopping = false)

theorem Attached.step (h : s.Attached a i j) (ho : s.Orderly) (hs : Step s x s')
    (happly : s.apply x = s') : s'.Attached a i j := by
  obtain ⟨d, hd, ha, h⟩ := h
  obtain ⟨d', hd'⟩ := (ho.supplying hs).exists_controller hd
  refine ⟨d', hd', (ho.handled hs happly).plan hd hd' ▸ ha, ?_⟩
  by_cases hdoomed : d.Doomed
  · exact .inl (ho.doomed_step hs hd hdoomed hd')
  obtain ⟨n, hn, hi, hst⟩ := h.resolve_left hdoomed
  rcases hs.inbox_cases with ⟨asked, told, hq⟩ | ⟨r, rest, hserving, hinbox, rfl⟩
  · exact .inr ⟨n, hq.graph ▸ hn, hi, hst⟩
  · have hne : d.state ≠ .removed := fun he => hdoomed (.inl (by rw [he]; decide))
    obtain ⟨k, hk, hkj⟩ := ho.hosts_of_ne_removed hd hne
    obtain ⟨b, hb, hl⟩ := ho.consistent.linked hk
    obtain rfl := Option.some.inj (hd.symm.trans (hkj ▸ hb))
    obtain ⟨hmirrors, hhears⟩ := s.mirrors_trial.receive hinbox
    have hj := hhears j
    rw [hd', List.getElem?_append_left (List.getElem?_eq_some_iff.mp hd).1, hd, Option.map_some,
      Option.some.injEq] at hj
    rw [hj, ← hmirrors.graph]
    rcases (ho.sound s.mirrors_trial).stays_or_warned hn hst hk (hl.dependencies ▸ ha)
      (Request.not_removes fun _ => hl.ne_removed hinbox hne) with ⟨n', hn', hi', hst'⟩ | hw
    · exact .inr ⟨n', hn', hi'.trans hi, hst'⟩
    · exact .inl (Controller.doomed_told (fun he => ho.endsRemoved hd he)
        (messagesTo_signals j _ ▸ hkj ▸ hw))

theorem Attached.append (h : (initial.run before).Attached a i j)
    (hx : ∀ x ∈ before ++ after, x ≠ .cancel) : (initial.run (before ++ after)).Attached a i j :=
  run_induction_from (P := fun happened => (initial.run happened).Attached a i j) h
    (fun _ ho hs hattached => hattached.step ho hs (run_snoc ..).symm) hx

/-- A service is launched that depends on an incarnation which has not begun to stop. -/
theorem Orderly.attached_receive (ho : s.Orderly) {rest : List Request}
    (hi : s.container.inbox = .install plan k :: rest) (hst : s.container.stage = .opened)
    (hfree : s.container.graph.contains plan.name = false) (ha : a ∈ plan.dependencies) {n : Node}
    (hn : s.container.graph.nodes[a]? = some n) (hs : n.stopping = false) :
    s.receive.Attached a n.inbox s.controllers.length := by
  obtain ⟨hmirrors, hhears⟩ := s.mirrors_trial.receive hi
  have hlast := hhears s.controllers.length
  rw [launches, if_pos ⟨hst, hfree⟩, List.getElem?_concat_length, Option.map_some] at hlast
  refine ⟨_, hlast, by rwa [Controller.told_plan], .inr ?_⟩
  rw [← hmirrors.graph, Request.steps, if_pos hst]
  obtain ⟨n', hn', hsurvives⟩ := (Trial.stepSpec (ho.sound s.mirrors_trial) (.register plan.name
    plan.dependencies plan.group (Names.ofList plan.rosters.keys))).survives hn fun h => h
  refine ⟨n', hn', hsurvives.inbox, ?_⟩
  rw [← Bool.not_eq_true, hsurvives.stopping]
  simp [hs, TrialStep.Stops]

/-- By the time a controller was launched, an incarnation had begun to stop. -/
def StopBegan (happened : List Stimulus) (a : Name) (i j : Nat) : Prop :=
  ∃ before ∈ happened.inits, (initial.run before).controllers.length = j ∧
    ∃ n ∈ (initial.run before).container.graph.nodes[a]?, n.inbox = i ∧ n.stopping = true

instance (happened : List Stimulus) (a : Name) (i j : Nat) : Decidable (StopBegan happened a i j) :=
  inferInstanceAs (Decidable (∃ before ∈ happened.inits,
    (initial.run before).controllers.length = j ∧
    ∃ n ∈ (initial.run before).container.graph.nodes[a]?, n.inbox = i ∧ n.stopping = true))

/-- Whoever is created in a start is attached to the service that created it, unless that had begun
to stop before. -/
theorem attached_or_stopBegan (hx : ∀ x ∈ happened, x ≠ .cancel)
    (hcreated : Created happened i a plan k) (hlaunched : LaunchedBy happened j plan k) :
    (initial.run happened).Attached a i j ∨ StopBegan happened a i j := by
  obtain ⟨before, after, rest, rfl, hi, hst, hfree, rfl⟩ := hlaunched
  have hxb : ∀ x ∈ before, x ≠ .cancel := fun x hxb => hx x (List.mem_append_left _ hxb)
  have ho := orderly_run hxb
  have hknown := lt_of_mem_inbox hxb (hi ▸ List.mem_cons_self) rfl
  obtain ⟨⟨n, hn, rfl⟩, -⟩ := held_run hxb (hcreated.of_lt hx hknown) [] rest hi
  obtain ⟨_, _, _, _, hcreates⟩ := hcreated
  cases hs : n.stopping with
  | true => exact .inr ⟨before, by simp [List.mem_inits], rfl, n, hn, rfl, hs⟩
  | false =>
      have hserving : (initial.run before).container.isServing = true :=
        isServing_iff.mpr (.inl hst)
      have hattached := ho.attached_receive hi hst hfree hcreates.depends hn hs
      rw [List.append_cons] at hx ⊢
      refine .inl (Attached.append ?_ hx)
      rwa [run_receive hserving hi]

/-- Whoever rests in a settled system is not on its way out. -/
theorem Settled.not_doomed (hs : s.Settled) (hd : s.controllers[j]? = some d)
    (hrests : s.RestsWell d) : ¬d.Doomed := by
  have hstate : d.state = .started ∨ d.state = .waiting := hrests.imp And.left And.left
  rintro (hleaving | hflagged | hwarned)
  · rcases hstate with h | h <;> simp [h, State.Leaving, State.phase] at hleaving
  · rcases hstate with h | h <;> simp [h] at hflagged
  · simp [hs.signals hd, Graph.Warned] at hwarned

/-- Once a service is removed and nothing is under way, a service that was created in its start is
not installed any more, unless the other had begun to stop by the time it was taken in. Then it
waits for the other, and was never started, if nobody is installed under that name. -/
theorem offspring_of_removed (hx : ∀ x ∈ happened, x ≠ .cancel)
    (hs : (initial.run happened).Settled) (hcreated : Created happened i a plan k)
    (hlaunched : LaunchedBy happened j plan k)
    (hc : (initial.run happened).controllers[i]? = some c) (hr : c.state = .removed) :
    ¬(initial.run happened).container.graph.Hosts plan.name j ∨
      (StopBegan happened a i j ∧ ((initial.run happened).container.graph.contains a = false →
        ∃ d, (initial.run happened).controllers[j]? = some d ∧ d.state = .waiting ∧
          .injectAndStart ∉ initial.trace happened j)) := by
  have hsteady := (orderly_run hx).steady hs
  refine or_iff_not_imp_left.mpr fun hhosts => ?_
  obtain ⟨m, hm, hmj⟩ := not_not.mp hhosts
  obtain ⟨d, hd, -, -, -, -, hrests⟩ := hsteady.installed hm
  rw [hmj] at hd
  have hbegan : StopBegan happened a i j := by
    refine (attached_or_stopBegan hx hcreated hlaunched).resolve_left ?_
    rintro ⟨d', hd', -, hdoomed | ⟨n, hn, rfl, -⟩⟩
    · obtain rfl := Option.some.inj (hd.symm.trans hd')
      exact hs.not_doomed hd hrests hdoomed
    · obtain ⟨b, hb, -, -, -, -, hb'⟩ := hsteady.installed hn
      obtain rfl := Option.some.inj (hc.symm.trans hb)
      rcases hb' with ⟨hst, -⟩ | ⟨hst, -⟩ <;> simp [hr] at hst
  refine ⟨hbegan, fun hfree => ⟨d, hd, ?_⟩⟩
  have hwaiting : d.state = .waiting := by
    refine (hrests.resolve_left ?_).1
    rintro ⟨-, hdeps⟩
    obtain ⟨_, _, _, _, hcreates⟩ := hcreated
    obtain ⟨_, hk, -⟩ := launchedBy_run hx hd
    obtain ⟨n, _, hn, -⟩ := hdeps a ((hk.mp hlaunched).1 ▸ hcreates.depends)
    simp [Graph.contains_eq, hn] at hfree
  exact ⟨hwaiting, ((hasRun hx).ran hd).unstarted hwaiting⟩

/-- A service that creates another in its start. -/
def parentService : Service :=
  { plainService "parent" [] with
    callbacks := .scripted false [.install (plainService "child" [])] [] }

/-- What the parent creates. -/
def childPlan : Plan := (plainService "child" []).plan (some "parent")

theorem creates_child (hc : s.controllers[i]?.map (fun c => (c.plan.name, c.state)) =
      some ("parent", .waiting))
    (hx : (s.turn? x).map (fun t => (t.1, t.2.requests)) = some (i, [.install childPlan k])) :
    s.Creates x i "parent" childPlan k := by
  obtain ⟨c, hc, he⟩ := Option.map_eq_some_iff.mp hc
  obtain ⟨⟨_, t⟩, ht, hr⟩ := Option.map_eq_some_iff.mp hx
  obtain ⟨hname, hstate⟩ := Prod.mk.inj he
  obtain ⟨rfl, hrequests⟩ := Prod.mk.inj hr
  have hmem : .install childPlan k ∈ t.requests := hrequests ▸ List.mem_singleton_self _
  exact hname ▸ .asks hc ht (.inl hstate) hmem (hname ▸ .service _)

/-- A service is started, creates another, and is then removed. -/
def parentReturns : List Stimulus :=
  [.request (.request 0) .start, .request (.request 1) (.install parentService)] ++
  turns 6 2 ++ .request (.request 2) (.remove "parent") :: turns 8 2

theorem gone_parentReturns : (∀ x ∈ parentReturns, x ≠ .cancel) ∧
    (initial.run parentReturns).Settled ∧ Created parentReturns 0 "parent" childPlan 1 ∧
    LaunchedBy parentReturns 1 childPlan 1 ∧ ¬StopBegan parentReturns "parent" 0 1 ∧
    ∃ c, (initial.run parentReturns).controllers[0]? = some c ∧ c.state = .removed ∧
      ¬(initial.run parentReturns).container.graph.Hosts childPlan.name 1 := by
  have hx : ∀ x ∈ parentReturns, x ≠ .cancel := by
    simp only [parentReturns, List.forall_mem_append, List.forall_mem_cons]
    exact ⟨⟨⟨nofun, nofun, nofun⟩, not_cancel_turns 6 2⟩, nofun, not_cancel_turns 8 2⟩
  have hs : (initial.run parentReturns).Settled := by decide +kernel
  have hcreated : Created parentReturns 0 "parent" childPlan 1 :=
    ⟨parentReturns.take 3, .move (.take 0), parentReturns.drop 4, rfl,
      creates_child (by decide +kernel) rfl⟩
  have hlaunched : LaunchedBy parentReturns 1 childPlan 1 :=
    ⟨parentReturns.take 5, parentReturns.drop 6,
      (initial.run (parentReturns.take 6)).container.inbox, rfl, rfl, by decide +kernel,
      by decide +kernel, by decide +kernel⟩
  have hbegan : ¬StopBegan parentReturns "parent" 0 1 := by decide +kernel
  have hparent : (initial.run parentReturns).controllers[0]?.map Controller.state =
      some .removed := by decide +kernel
  obtain ⟨c, hc, hr⟩ := Option.map_eq_some_iff.mp hparent
  have hgone := offspring_of_removed hx hs hcreated hlaunched hc hr
  exact ⟨hx, hs, hcreated, hlaunched, hbegan, c, hc, hr,
    hgone.resolve_right fun h => hbegan h.1⟩

/-- A service is removed before it starts, and creates another in its start. -/
def parentLeaves : List Stimulus :=
  [.request (.request 0) .start, .request (.request 1) (.install parentService),
    .request (.request 2) (.remove "parent"), .move .receive, .move .receive] ++ turns 8 2

/-- What a service creates is left behind, if the service had begun to stop before. -/
theorem not_gone_of_late : ¬∀ (happened : List Stimulus) (i j : Nat) (a : Name) (plan : Plan)
    (k : Ticket) (c : Controller), (∀ x ∈ happened, x ≠ .cancel) →
    (initial.run happened).Settled → Created happened i a plan k → LaunchedBy happened j plan k →
    (initial.run happened).controllers[i]? = some c → c.state = .removed →
    (∀ l > i, ∀ b : Controller, (initial.run happened).controllers[l]? = some b →
      b.plan.name ≠ a) →
    ¬(initial.run happened).container.graph.Hosts plan.name j := by
  intro h
  have hx : ∀ x ∈ parentLeaves, x ≠ .cancel := by
    simp only [parentLeaves, List.forall_mem_append, List.forall_mem_cons]
    exact ⟨⟨nofun, nofun, nofun, nofun, nofun, nofun⟩, not_cancel_turns 8 2⟩
  have hcreated : Created parentLeaves 0 "parent" childPlan 2 :=
    ⟨parentLeaves.take 6, .move (.take 0), parentLeaves.drop 7, rfl,
      creates_child (by decide +kernel) rfl⟩
  have hlaunched : LaunchedBy parentLeaves 1 childPlan 2 :=
    ⟨parentLeaves.take 8, parentLeaves.drop 9,
      (initial.run (parentLeaves.take 9)).container.inbox, rfl, rfl, by decide +kernel,
      by decide +kernel, by decide +kernel⟩
  have hparent : (initial.run parentLeaves).controllers[0]?.map Controller.state =
      some .removed := by decide +kernel
  have hchild : (initial.run parentLeaves).container.graph.nodes[childPlan.name]?.map Node.inbox =
      some 1 := by decide +kernel
  obtain ⟨c, hc, hr⟩ := Option.map_eq_some_iff.mp hparent
  obtain ⟨n, hn, hi⟩ := Option.map_eq_some_iff.mp hchild
  have hlast : ∀ l > 0, ∀ b : Controller, (initial.run parentLeaves).controllers[l]? = some b →
      b.plan.name ≠ "parent" := by
    intro l hl b hb
    have hnames : ∀ b ∈ (initial.run parentLeaves).controllers.drop 1, b.plan.name ≠ "parent" := by
      decide +kernel
    obtain ⟨l, rfl⟩ := Nat.exists_eq_add_of_lt hl
    exact hnames b (List.mem_of_getElem? (i := l) (by simpa [Nat.add_comm] using hb))
  exact h parentLeaves 0 1 "parent" childPlan 2 c hx (by decide +kernel) hcreated hlaunched hc hr
    hlast ⟨n, hn, hi⟩

end System

end ServiceHost
