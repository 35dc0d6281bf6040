import ServiceHost.Proofs.Declarations
import ServiceHost.Proofs.System.Beginnings
import ServiceHost.Proofs.System.Phases

/-! # While services are installed

Services that fit together are installed one after the other, in the order they were asked for: the
one asked for first gets the first controller and was promised the first answer. -/

namespace ServiceHost

/-- The service a request is to install, and the promise made for it. -/
def Request.install? : Request → Option (Plan × Ticket)
  | .install plan ticket => some (plan, ticket)
  | _ => none

/-- Whoever is only started tells its installer the value it exposes. -/
theorem Controller.Tame.answer_of_start {c : Controller} (h : c.Tame .start)
    {o : Except Error Answer} (ha : c.answer? = some o) : o = .ok (Turn.startAnswer c.plan) := by
  obtain ⟨e, hmem, ha⟩ := exists_of_answer? ha
  rcases h.state with hs | hs | hs <;> rcases h.signals _ hmem with hx | hx <;>
    simp_all [State.effects, transition, Effect.answer?]

namespace System

variable {s s' : System} {type : Label → ValueType} {asked : List Service}

/-! ## Who stands in line -/

/-- Whoever has a controller, and after them whoever stands in line for one, are the services asked
for, in this order. -/
def Lined (asked : List Service) (s : System) : Prop :=
  (s.controllers.map (·.plan)).zipIdx ++ s.container.inbox.filterMap Request.install? =
    (asked.map (·.plan none)).zipIdx

/-- A controller is that of the service asked for in its place. -/
theorem Lined.declared (h : s.Lined asked) {i : Nat} {c : Controller}
    (hc : s.controllers[i]? = some c) : ∃ d, asked[i]? = some d ∧ c.plan = d.plan none := by
  have hlt : i < s.controllers.length := (List.getElem?_eq_some_iff.mp hc).1
  have hline := congrArg (·[i]?) h
  rw [List.getElem?_append_left (by simpa using hlt), List.getElem?_zipIdx, List.getElem?_zipIdx,
    List.getElem?_map, List.getElem?_map, hc] at hline
  cases hd : asked[i]? with
  | none => simp [hd] at hline
  | some d => exact ⟨d, rfl, by simpa [hd] using hline⟩

/-- The first in line is the service asked for after those that have a controller. -/
theorem Lined.next (h : s.Lined asked) {plan : Plan} {ticket : Ticket} {rest : List Request}
    (hi : s.container.inbox = .install plan ticket :: rest) : ticket = s.controllers.length ∧
      ∃ d, asked[s.controllers.length]? = some d ∧ plan = d.plan none := by
  have hfirst : s.container.inbox.filterMap Request.install? =
      (plan, ticket) :: rest.filterMap Request.install? := by
    rw [hi]
    rfl
  have hline := congrArg (·[s.controllers.length]?) h
  rw [hfirst, List.getElem?_append_right (by simp)] at hline
  simp only [List.length_zipIdx, List.length_map, Nat.sub_self, List.getElem?_cons_zero,
    List.getElem?_zipIdx, List.getElem?_map, Nat.zero_add] at hline
  cases hd : asked[s.controllers.length]? with
  | none => simp [hd] at hline
  | some d =>
      obtain ⟨rfl, rfl⟩ : plan = d.plan none ∧ ticket = s.controllers.length := by
        simpa [hd] using hline
      exact ⟨rfl, d, rfl, rfl⟩

/-- Nobody is installed under the name of a service that stands in line. -/
theorem Lined.free (h : s.Lined asked) (hnames : (asked.map (·.name)).Nodup) (ho : s.Orderly)
    {plan : Plan} {ticket : Ticket} {rest : List Request}
    (hi : s.container.inbox = .install plan ticket :: rest) :
    s.container.graph.contains plan.name = false := by
  obtain ⟨_, d, hd, rfl⟩ := h.next hi
  by_contra hin
  obtain ⟨n, hn⟩ := Graph.contains_iff.mp (Bool.not_eq_false _ |>.mp hin)
  obtain ⟨c, hc, hl⟩ := ho.consistent.linked hn
  obtain ⟨e, he, hplan⟩ := h.declared hc
  have hname : e.name = d.name := by
    rw [← Declaration.plan_name e, ← hplan, hl.name, Declaration.plan_name]
  have hlt := (List.getElem?_eq_some_iff.mp hc).1
  have hleft : (asked.map (·.name))[n.inbox]? = some d.name := by simp [he, hname]
  have hright : (asked.map (·.name))[s.controllers.length]? = some d.name := by simp [hd]
  have hsame : n.inbox = s.controllers.length :=
    (List.getElem?_inj (List.getElem?_eq_some_iff.mp hleft).1 hnames).mp (hleft.trans hright.symm)
  exact Nat.ne_of_lt hlt hsame

theorem Lined.congr (h : s.Lined asked)
    (hc : s'.controllers.map (·.plan) = s.controllers.map (·.plan))
    (hi : s'.container.inbox.filterMap Request.install? =
      s.container.inbox.filterMap Request.install?) : s'.Lined asked := by
  rw [Lined, hc, hi]
  exact h

/-- The first in line gets a controller, or what is taken is no request to install anything. -/
theorem Lined.receive (h : s.Lined asked) (hnames : (asked.map (·.name)).Nodup)
    (hp : s.Phased .start) (ho : s.Orderly) {r : Request} {rest : List Request}
    (hi : s.container.inbox = r :: rest) : s.receive.Lined asked := by
  have hinbox : s.receive.container.inbox = rest := (staysOpen_receive hp.opened hi fun k hk => by
    have hsuits := hp.requests r (hi ▸ List.mem_cons_self)
    rw [hk] at hsuits
    exact hsuits).inbox
  have hplans : s.receive.controllers.map (·.plan) =
      (s.controllers ++ s.launches r).map (·.plan) := by
    refine List.ext_getElem?_iff.mpr fun i => ?_
    rw [List.getElem?_map, List.getElem?_map,
      ((mirrors_trial s).receive hi).2 i, Option.map_map]
    exact congrArg (Option.map · _) (funext fun c => c.told_plan _)
  rw [Lined, hinbox, hplans, List.map_append, List.zipIdx_append, ← h, hi, List.filterMap_cons,
    List.append_assoc]
  congr 1
  cases r with
  | install plan ticket =>
      have hfree := h.free hnames ho hi
      obtain ⟨rfl, _⟩ := h.next hi
      simp [launches, hp.opened, hfree, Request.install?, Controller.launch]
  | _ => simp [launches, Request.install?]

/-- A step in which no service is installed leaves all plans as they are. -/
theorem Orderly.plans_eq (ho : s.Orderly) {x : Stimulus} (hs : Step s x s')
    (hlen : s'.controllers.length = s.controllers.length) :
    s'.controllers.map (·.plan) = s.controllers.map (·.plan) := by
  refine List.ext_getElem?_iff.mpr fun i => ?_
  rw [List.getElem?_map, List.getElem?_map]
  cases hc' : s'.controllers[i]? with
  | none =>
      rw [List.getElem?_eq_none (hlen ▸ List.getElem?_eq_none_iff.mp hc')]
  | some c' =>
      cases ho.becomes hs hc' with
      | rests hc hr => rw [hc, Option.map_some, Option.map_some, hr.plan]
      | takes hx hc hcan hfinal => rw [hc, Option.map_some, Option.map_some, hfinal, plan_take hcan]
      | launched _ _ _ _ hle =>
          have := (List.getElem?_eq_some_iff.mp hc').1
          omega

/-- Turns in which services are only started ask for nothing. -/
theorem Lined.turn (h : s.Lined asked) (hp : s.Phased .start) (ho : s.Orderly) {x : Stimulus}
    {id : Nat} {c : Controller} {t : Turn} (hs : Step s x (s.applyTurn id t))
    (hc : s.controllers[id]? = some c) (ht : t.Tame .start c) :
    (s.applyTurn id t).Lined asked := by
  have ha := applies_applyTurn (t := t) (List.getElem?_eq_some_iff.mp hc).1
  refine h.congr (ho.plans_eq hs (by rw [ha.controllers, List.length_set])) ?_
  rw [ha.container, Container.sent, if_pos hp.isServing, List.filterMap_append, ht.requests,
    List.nil_append]
  refine List.append_right_eq_self.mpr ?_
  cases hr : t.reported with
  | none => rfl
  | some r =>
      obtain ⟨_, _, rfl, _⟩ := ht.reported r hr
      rfl

/-! ## Steps -/

theorem offers_pos {i : Nat} {c : Controller} (hc : s.controllers[i]? = some c)
    {values : List (Name × Value)}
    (hmem : .lifecycle (.dependenciesAvailable values) ∈ c.inbox) : 0 < s.offers i values := by
  rw [System.offers, hc]
  exact List.count_pos_iff.mpr hmem

/-- What is on its way to a service was before, or is what its dependencies expose now. -/
theorem Supplying.offered_or (h : s.Supplying s') {i : Nat} {values : List (Name × Value)}
    (hpos : 0 < s'.offers i values) : 0 < s.offers i values ∨ ∃ (m : Name) (n : Node),
      s'.container.graph.nodes[m]? = some n ∧ n.inbox = i ∧
      s'.container.graph.available? n.dependencies = some values := by
  rcases Nat.eq_zero_or_pos (s.offers i values) with hzero | hold
  · obtain ⟨m, n, hn, hi, _, havailable, _⟩ := h.offered (hzero ▸ hpos)
    exact .inr ⟨m, n, hn, hi, havailable⟩
  · exact .inl hold

/-- What holds of an open container that was asked to install services which fit together, and for
nothing else. -/
structure Installing (type : Label → ValueType) (asked : List Service) (s : System) : Prop where
  phased : s.Phased .start
  alive : ∀ c ∈ s.controllers, c.ended = false
  lined : s.Lined asked
  pledges : s.world.pledges.length = asked.length
  slots : ∀ {l : Label} {slot : Slot}, s.world.cells.slot? l = some slot → slot.type = type l
  offered : ∀ {i : Nat} {values : List (Name × Value)}, 0 < s.offers i values →
    ∀ p ∈ values, ∃ d ∈ asked, d.name = p.1 ∧ d.value = p.2
  covered : ∀ {i : Nat} {c : Controller} {values : List (Name × Value)},
    s.controllers[i]? = some c → 0 < s.offers i values →
    ∀ e ∈ c.plan.dependencies, ∃ v, (e, v) ∈ values
  paid : ∀ {i : Nat} {c : Controller}, s.controllers[i]? = some c → c.install = some i ∨
    (c.install = none ∧ s.world.status i = some (some (.ok (Turn.startAnswer c.plan))))

namespace Installing

theorem tame (h : Installing type asked s) {i : Nat} {c : Controller}
    (hc : s.controllers[i]? = some c) : c.Tame .start :=
  h.phased.controllers hc (h.alive c (List.mem_of_getElem? hc))

/-- Every slot takes what is offered for it. -/
theorem accepts (h : Installing type asked s) (hf : Fits type asked) {i : Nat} {c : Controller}
    (hc : s.controllers[i]? = some c) : c.Accepts s.world.cells := by
  intro values hmem
  obtain ⟨d, hd, hplan⟩ := h.lined.declared hc
  refine Turn.inject_ok fun p hp l hl slot hslot => ?_
  obtain ⟨e, he, hname, hvalue⟩ := h.offered (offers_pos hc hmem) p hp
  rw [hplan, Declaration.mem_plan_slotsOf] at hl
  obtain ⟨b, hb, hdep, rfl⟩ := hl
  have hmem := List.mem_of_getElem? hd
  rw [h.slots hslot, ← hf.typed d hmem b hb, ← hvalue,
    hf.fitting d hmem b hb e he (hname.trans hdep.symm)]

/-- Whoever is installed was asked for. -/
theorem known (h : Installing type asked s) (ho : s.Orderly) {m : Name} {n : Node}
    (hn : s.container.graph.nodes[m]? = some n) : ∃ (d : Service) (c : Controller), d ∈ asked ∧
      d.name = m ∧ s.controllers[n.inbox]? = some c ∧ c.plan = d.plan none ∧ Linked m n c
        (reportsOf m s.container.inbox) := by
  obtain ⟨c, hc, hl⟩ := ho.consistent.linked hn
  obtain ⟨d, hd, hplan⟩ := h.lined.declared hc
  refine ⟨d, c, List.mem_of_getElem? hd, ?_, hc, hplan, hl⟩
  rw [← hl.name, hplan, Declaration.plan_name]

theorem lined_step (h : Installing type asked s) (hf : Fits type asked) (ho : s.Orderly)
    {x : Stimulus} (hs : Step s x s') (hx : x.isInternal = true) : s'.Lined asked := by
  cases hs with
  | calm hcalm =>
      exact h.lined.congr (ho.plans_eq (.calm hcalm ‹_›) (length_of_rel hcalm.controllers))
        (by rw [hcalm.container])
  | opened | asked => cases hx
  | received r rest hserving hi => exact h.lined.receive hf.names h.phased ho hi
  | finished hst => simp [h.phased.opened] at hst
  | took id c hc hcan =>
      exact h.lined.turn h.phased ho (.took id c hc hcan) hc
        ((h.tame hc).take hcan id (h.accepts hf hc)).1
  | resumed id c callback answer hc hwake =>
      exact h.lined.turn h.phased ho (.resumed id c callback answer hc hwake) hc
        (h.phased.resume ho hc hwake).1
  | joined id t outcome hj =>
      exact h.lined.congr (ho.plans_eq (.joined id t outcome hj) (length_of_map hj.controllers))
        (by rw [hj.container])

/-- No controller comes to its end. -/
theorem alive_step (h : Installing type asked s) (ho : s.Orderly) {x : Stimulus}
    (hs : Step s x s') : ∀ c ∈ s'.controllers, c.ended = false := by
  intro c' hmem
  obtain ⟨i, hc'⟩ := List.mem_iff_getElem?.mp hmem
  cases ho.becomes hs hc' with
  | rests hc hr => exact hr.ended.trans (h.alive _ (List.mem_of_getElem? hc))
  | @takes c hx hc hcan hfinal =>
      by_contra hended
      rw [hfinal, Turn.final_ended, Bool.not_eq_false] at hended
      have hallows := (h.tame hc).state
      simp [Controller.removed_of_ended hcan hended, Phase.Allows] at hallows
  | launched plan ticket messages hx hlen hlaunched =>
      rw [hlaunched, Controller.told_ended]
      rfl

/-- No promise is made but those for the services asked for. -/
theorem pledges_step (h : Installing type asked s) (hf : Fits type asked) (ho : s.Orderly)
    {x : Stimulus} (hs : Step s x s') (hx : x.isInternal = true) :
    s'.world.pledges.length = asked.length := by
  have hturn : ∀ {id : Nat} {c : Controller} {t : Turn}, t.Tame .start c → t.Pays s.world c →
      (s.applyTurn id t).world.pledges.length = asked.length := by
    intro id c t ht hpays
    obtain ⟨w, hsettles, hasked⟩ := hpays.asks
    rw [ht.requests] at hasked
    rw [(settles_applyTurn s id t).length, (Serves.asked hasked).length, List.filterMap_nil,
      List.length_nil, Nat.add_zero, hsettles.length, h.pledges]
  cases hs with
  | calm hcalm => rw [hcalm.pledges, h.pledges]
  | opened | asked => cases hx
  | received r rest hserving hi =>
      obtain ⟨gone, _, hserves⟩ := deals_receive ho hserving hi
      rw [hserves.length, List.length_nil, Nat.add_zero, h.pledges]
  | finished hst => simp [h.phased.opened] at hst
  | took id c hc hcan =>
      exact hturn ((h.tame hc).take hcan id (h.accepts hf hc)).1 (Turn.pays_take hcan id s.world)
  | resumed id c callback answer hc hwake =>
      exact hturn (h.phased.resume ho hc hwake).1 (Turn.pays_resume hwake id)
  | joined id t outcome hj => rw [hj.pledges, h.pledges]

theorem slots_step (h : Installing type asked s) (hf : Fits type asked) (ho : s.Orderly)
    {x : Stimulus} (hs : Step s x s') (hx : x.isInternal = true) {l : Label} {slot : Slot}
    (hslot : s'.world.cells.slot? l = some slot) : slot.type = type l := by
  cases hs with
  | calm hcalm => exact h.slots (hcalm.cells ▸ hslot)
  | opened | asked => cases hx
  | received r rest hserving hi => exact h.slots (receive_cells _ ▸ hslot)
  | finished hst => simp [h.phased.opened] at hst
  | took id c hc hcan =>
      obtain ⟨_, message, rest, hi, hrefills⟩ := (h.tame hc).take hcan id (h.accepts hf hc)
      rw [applyTurn_cells] at hslot
      generalize (c.take id s.world).world.cells = cells at hrefills hslot
      cases hrefills with
      | kept hno hframe => exact h.slots (hframe.kept not_false ▸ hslot)
      | filled values hp =>
          have htype := (Turn.frame_inject c.plan values s.world.cells).type l
          rw [hslot, Option.map_some, eq_comm, Option.map_eq_some_iff] at htype
          obtain ⟨slot', hslot', htype⟩ := htype
          exact htype ▸ h.slots hslot'
      | emptied hp => cases hp
  | resumed id c callback answer hc hwake =>
      refine h.slots (((applyTurn_cells _ _ _).trans (h.phased.resume ho hc hwake).2) ▸ hslot)
  | joined id t outcome hj => exact h.slots (hj.cells ▸ hslot)

/-- What is offered is what the services asked for expose. -/
theorem offered_step (h : Installing type asked s) (ho : s.Orderly) {x : Stimulus}
    (hs : Step s x s') (hlined : s'.Lined asked) {i : Nat} {values : List (Name × Value)}
    (hpos : 0 < s'.offers i values) : ∀ p ∈ values, ∃ d ∈ asked, d.name = p.1 ∧ d.value = p.2 := by
  rcases (ho.supplying hs).offered_or hpos with hold | ⟨_, _, _, _, havailable⟩
  · exact h.offered hold
  · rintro ⟨e, v⟩ hp
    have ho' := ho.step hs
    obtain ⟨_, hexposed⟩ := Graph.exposed?_of_mem_available? havailable hp
    obtain ⟨k, hk, hvalue, _⟩ := ho'.consistent.ordered.of_exposed? hexposed
    obtain ⟨c, hc, hl⟩ := ho'.consistent.linked hk
    obtain ⟨d, hd, hplan⟩ := hlined.declared hc
    refine ⟨d, List.mem_of_getElem? hd, ?_, ?_⟩
    · rw [← hl.name, hplan, Declaration.plan_name]
    · rw [hl.value v hvalue, hplan, Declaration.plan_value]

/-- What is offered covers what a service depends on. -/
theorem covered_step (h : Installing type asked s) (ho : s.Orderly) {x : Stimulus}
    (hs : Step s x s') {i : Nat} {c' : Controller} {values : List (Name × Value)}
    (hc' : s'.controllers[i]? = some c') (hpos : 0 < s'.offers i values) :
    ∀ e ∈ c'.plan.dependencies, ∃ v, (e, v) ∈ values := by
  rcases (ho.supplying hs).offered_or hpos with hthere | ⟨m, n, hn, rfl, havailable⟩
  · have hold : ∀ {c : Controller}, s.controllers[i]? = some c → c'.plan = c.plan →
        ∀ e ∈ c'.plan.dependencies, ∃ v, (e, v) ∈ values :=
      fun hc hplan => hplan ▸ h.covered hc hthere
    cases ho.becomes hs hc' with
    | rests hc hr => exact hold hc hr.plan
    | takes _ hc hcan hfinal => exact hold hc (hfinal ▸ plan_take hcan i _ _)
    | launched _ _ _ _ hlen =>
        rw [System.offers, List.getElem?_eq_none hlen] at hthere
        exact absurd hthere (Nat.lt_irrefl 0)
  · obtain ⟨c, hc, hl⟩ := (ho.step hs).consistent.linked hn
    obtain rfl := Option.some.inj (hc'.symm.trans hc)
    intro e he
    obtain ⟨v, hv, _⟩ := Graph.exists_of_mem_available? havailable (hl.dependencies ▸ he)
    exact ⟨v, hv⟩

/-- Whoever is installed has its promise to keep, or kept it by the value of its service. -/
theorem paid_step (h : Installing type asked s) (ho : s.Orderly) (howned : s.Owned)
    (hledger : s.Ledger) (howes : ∀ {i : Nat} {c : Controller}, s.controllers[i]? = some c → c.Owes)
    {x : Stimulus} (hs : Step s x (s.apply x)) {i : Nat} {c' : Controller}
    (hc' : (s.apply x).controllers[i]? = some c') : c'.install = some i ∨ (c'.install = none ∧
      (s.apply x).world.status i = some (some (.ok (Turn.startAnswer c'.plan)))) := by
  cases ho.becomes hs hc' with
  | rests hc hr =>
      rw [hr.install, hr.plan]
      exact (h.paid hc).imp_right fun hpaid => ⟨hpaid.1, (hledger.step ho hs).2.settled hpaid.2⟩
  | @takes c hx hc hcan hfinal =>
      have hplan : c'.plan = c.plan := hfinal ▸ plan_take hcan i s.tasks.length s.world
      have hnone : ∀ k, c'.install = some k → c.answer? = none ∧ c.install = some k := by
        intro k hk
        rw [hfinal] at hk
        have hk := Turn.final_install hk
        rw [(Controller.replies_take hcan i s.world).install] at hk
        cases ha : c.answer? with
        | none =>
            rw [ha] at hk
            exact ⟨rfl, hk⟩
        | some o => simp [ha] at hk
      rcases h.paid hc with hopen | ⟨hpaid, hstatus⟩
      · rcases ho.told_installer howned (howes hc) hs hc hopen hc' with hk | ⟨o, _, _, ha, hstatus⟩
        · exact .inl hk
        · refine .inr ⟨Option.eq_none_iff_forall_ne_some.mpr fun k hk => ?_, ?_⟩
          · simp [(hnone k hk).1] at ha
          · rw [hstatus, (h.tame hc).answer_of_start ha, hplan]
      · refine .inr ⟨Option.eq_none_iff_forall_ne_some.mpr fun k hk => ?_, ?_⟩
        · simp [(hnone k hk).2] at hpaid
        · rw [hplan]
          exact (hledger.step ho hs).2.settled hstatus
  | launched plan ticket messages hx hlen hlaunched =>
      subst hx
      obtain ⟨plan', ticket', rest, messages', hi, _, _, hlast, hnew⟩ :=
        launched_receive (List.getElem?_eq_some_iff.mp hc').1 hlen rfl
      obtain rfl := Option.some.inj (hc'.symm.trans hnew)
      refine .inl ?_
      rw [Controller.told_install, ← hlast, ← (h.lined.next hi).1]
      rfl

theorem step (h : Installing type asked s) (hf : Fits type asked) (ho : s.Orderly)
    (howned : s.Owned) (hledger : s.Ledger)
    (howes : ∀ {i : Nat} {c : Controller}, s.controllers[i]? = some c → c.Owes) {x : Stimulus}
    (hs : Step s x (s.apply x)) (hx : x.isInternal = true) :
    Installing type asked (s.apply x) where
  phased := h.phased.step ho hs hx (h.accepts hf)
  alive := h.alive_step ho hs
  lined := h.lined_step hf ho hs hx
  pledges := h.pledges_step hf ho hs hx
  slots := h.slots_step hf ho hs hx
  offered := h.offered_step ho hs (h.lined_step hf ho hs hx)
  covered := h.covered_step ho hs
  paid := h.paid_step ho howned hledger howes hs

end Installing

/-! ## Requests -/

/-- What a request to install a service does at first. -/
structure AsksFor (d : Service) (s s' : System) : Prop where
  container : s'.container = { s.container with
    inbox := s.container.inbox ++ [.install (d.plan none) s.world.pledges.length] }
  controllers : s'.controllers = s.controllers
  tasks : s'.tasks = s.tasks
  cells : s'.world.cells = s.world.cells.createFor d
  pledges : s'.world.pledges.length = s.world.pledges.length + 1

theorem asksFor_apply (hst : s.container.stage = .opened) (origin : Origin) (d : Service) :
    AsksFor d s (s.apply (.request origin (.install d))) := by
  let p := (Progress.begin s.world).install origin none d
  have hsends := sends_sendAll { s with world := p.world } p.requests
  refine ⟨hsends.container.trans ?_, hsends.controllers, hsends.tasks,
    sendAll_cells { s with world := p.world } p.requests,
    (settles_sendAll { s with world := p.world } p.requests).length.trans ?_⟩
  · simp [Container.sent, Container.isServing, hst, p, Progress.install, Progress.ask,
      Progress.begin, World.pledge]
  · simp [p, Progress.install, Progress.ask, Progress.begin, World.pledge]

/-- One more service is asked for. -/
theorem Installing.request (h : Installing type asked s) (ho : s.Orderly) (hledger : s.Ledger)
    {d : Service} (hf : Fits type (asked ++ [d])) (origin : Origin) :
    Installing type (asked ++ [d]) (s.apply (.request origin (.install d))) := by
  have hr := asksFor_apply h.phased.opened origin d
  have hs : Step s (.request origin (.install d)) (s.apply (.request origin (.install d))) :=
    step_operate s origin (.install d)
  have hsettled := fun {k o} => (hledger.step ho hs).2.settled (k := k) (o := o)
  generalize s.apply (.request origin (.install d)) = s' at hr hs hsettled
  have hmem : d ∈ asked ++ [d] := by simp
  refine ⟨⟨?_, ?_, ?_, ?_⟩, ?_, ?_, ?_, ?_, ?_, ?_, ?_⟩
  · rw [hr.container]
    exact h.phased.opened
  · intro r hmem'
    rw [hr.container, List.mem_append, List.mem_singleton] at hmem'
    rcases hmem' with hold | rfl
    · exact h.phased.requests r hold
    · exact ⟨rfl, (Declaration.plan_conduct d none).symm ▸ hf.tame d hmem⟩
  · intro i c hc
    rw [hr.controllers] at hc
    exact h.phased.controllers hc
  · intro k t ht
    rw [hr.tasks] at ht
    exact h.phased.tasks ht
  · rw [hr.controllers]
    exact h.alive
  · rw [Lined, hr.container, hr.controllers, List.filterMap_append, ← List.append_assoc, h.lined,
      List.map_append, List.zipIdx_append, h.pledges]
    simp [Request.install?]
  · rw [hr.pledges, h.pledges, List.length_append, List.length_singleton]
  · intro l slot hslot
    rw [hr.cells] at hslot
    rcases Cells.slot?_createFor hslot with hold | ⟨b, hb, rfl, _, rfl⟩
    · exact h.slots hold
    · exact hf.typed d hmem b hb
  · intro i values hpos p hp
    rw [System.offers, hr.controllers] at hpos
    obtain ⟨e, he, hsame⟩ := h.offered hpos p hp
    exact ⟨e, List.mem_append_left _ he, hsame⟩
  · intro i c values hc hpos
    rw [hr.controllers] at hc
    rw [System.offers, hr.controllers] at hpos
    exact h.covered hc hpos
  · intro i c hc
    rw [hr.controllers] at hc
    exact (h.paid hc).imp_right fun hpaid => ⟨hpaid.1, hsettled hpaid.2⟩

/-! ## Runs -/

/-- The services that were asked to be installed, in order. -/
def installRequests (happened : List Stimulus) : List Service :=
  happened.filterMap fun
    | .request _ (.install d) => some d
    | _ => none

theorem installRequests_went {happened : List Stimulus} {x : Stimulus}
    (hx : x.isInternal = true) : installRequests (happened ++ [x]) = installRequests happened := by
  cases x <;> simp_all [installRequests, Stimulus.isInternal]

theorem installRequests_requested (happened : List Stimulus) (origin : Origin) (d : Service) :
    installRequests (happened ++ [.request origin (.install d)]) =
      installRequests happened ++ [d] := by
  simp [installRequests]

/-- A container is opened and services are installed, while everyone acts as they please. -/
inductive OnlyInstalls : List Stimulus → Prop
  | opened (origin : Origin) : OnlyInstalls [.request origin .start]
  | went {happened : List Stimulus} {x : Stimulus} (h : OnlyInstalls happened)
    (hx : x.isInternal = true) : OnlyInstalls (happened ++ [x])
  | requested {happened : List Stimulus} (h : OnlyInstalls happened) (origin : Origin)
    (d : Service) : OnlyInstalls (happened ++ [.request origin (.install d)])

variable {happened : List Stimulus}

theorem OnlyInstalls.not_cancel (h : OnlyInstalls happened) : ∀ x ∈ happened, x ≠ .cancel := by
  induction h with
  | opened origin => simp
  | @went happened x h hx ih =>
      refine List.forall_mem_append.mpr ⟨ih, List.forall_mem_singleton.mpr ?_⟩
      rintro rfl
      cases hx
  | requested h origin d ih =>
      exact List.forall_mem_append.mpr ⟨ih, List.forall_mem_singleton.mpr (by simp)⟩

theorem OnlyInstalls.goesOn (h : OnlyInstalls happened) {after : List Stimulus}
    (ha : ∀ x ∈ after, x.isInternal = true) : OnlyInstalls (happened ++ after) := by
  induction after using List.reverseRecOn with
  | nil => rwa [List.append_nil]
  | append_singleton after x ih =>
      rw [← List.append_assoc]
      exact (ih fun y hy => ha y (List.mem_append_left _ hy)).went (ha x (by simp))

theorem installing_opened (type : Label → ValueType) (origin : Origin) :
    Installing type [] (initial.run [.request origin .start]) := by
  have hcontrollers : (initial.run [.request origin .start]).controllers = [] := rfl
  have htasks : (initial.run [.request origin .start]).tasks = [] := rfl
  have hcells : (initial.run [.request origin .start]).world.cells = ∅ := rfl
  refine ⟨⟨rfl, ?_, ?_, ?_⟩, ?_, rfl, rfl, ?_, ?_, ?_, ?_⟩
  · exact fun r hr => absurd hr List.not_mem_nil
  · simp [hcontrollers]
  · simp [htasks]
  · simp [hcontrollers]
  · simp [hcells, Cells.slot?]
  · simp [System.offers, hcontrollers]
  · simp [hcontrollers]
  · simp [hcontrollers]

theorem OnlyInstalls.run (h : OnlyInstalls happened) (hf : Fits type (installRequests happened)) :
    Installing type (installRequests happened) (initial.run happened) := by
  induction h with
  | opened origin => exact installing_opened type origin
  | @went happened x h hx ih =>
      have hno := h.not_cancel
      have ho := orderly_run hno
      rw [installRequests_went hx] at hf ⊢
      rw [run_append]
      refine (ih hf).step hf ho (owned_run hno) (ledger_run hno) (owes_run hno)
        (step_apply ho.uncancelled ?_) hx
      rintro rfl
      cases hx
  | @requested happened h origin d ih =>
      have hno := h.not_cancel
      rw [installRequests_requested] at hf ⊢
      rw [run_append]
      exact (ih (hf.sublist (List.sublist_append_left _ _))).request (orderly_run hno)
        (ledger_run hno) hf origin

end System

end ServiceHost
