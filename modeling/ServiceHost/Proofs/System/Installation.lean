import ServiceHost.Proofs.System.Listings

/-! # Installing in any order

In whatever order services are installed, those start in the end that can, all others wait, and
nothing tells from what is left in which order they came. -/

namespace ServiceHost

open ServiceHost.Graph (Trial updatesTo)

/-! ## What does not depend on numbers -/

/-- Two nodes of a service installed twice: only the numbers of their inboxes may differ. -/
structure Node.Alike (n n' : Node) : Prop where
  dependencies : n'.dependencies = n.dependencies
  group : n'.group = n.group
  references : n'.references = n.references
  state : n'.state = n.state
  value : n'.value = n.value
  resolved : n'.resolved = n.resolved
  stopping : n'.stopping = n.stopping
  pending : n'.pendingDependents = n.pendingDependents

/-- Two graphs of the same services. -/
def Graph.Alike (g g' : Graph) : Prop := ∀ m : Name, Option.Rel Node.Alike g.nodes[m]? g'.nodes[m]?

namespace Graph.Alike

variable {g g' : Graph}

theorem dependencyLine (h : g.Alike g') (m : Name) : g'.dependencyLine m = g.dependencyLine m := by
  have hrel := h m
  unfold Graph.dependencyLine
  generalize g.nodes[m]? = o, g'.nodes[m]? = o' at hrel
  cases hrel with
  | none => rfl
  | some halike => simp [halike.state]

/-- Such graphs are written alike. -/
theorem text (h : g.Alike g') : g'.text = g.text := by
  let shown (g : Graph) : List (Name × State × Names) :=
    g.nodes.toList.map fun p => (p.1, p.2.state, p.2.dependencies)
  have hshown : shown g' = shown g := by
    have hmap : g'.nodes.map (fun _ n => (n.state, n.dependencies)) =
        g.nodes.map fun _ n => (n.state, n.dependencies) := by
      refine Std.ExtTreeMap.ext_getElem? fun m => ?_
      rw [Std.ExtTreeMap.getElem?_map, Std.ExtTreeMap.getElem?_map]
      have hrel := h m
      generalize g.nodes[m]? = o, g'.nodes[m]? = o' at hrel
      cases hrel with
      | none => rfl
      | some halike => simp [halike.state, halike.dependencies]
    have hlist := congrArg Std.ExtTreeMap.toList hmap
    rwa [Std.ExtTreeMap.toList_map, Std.ExtTreeMap.toList_map] at hlist
  have hwritten : ∀ g₀ : Graph, g₀.text = "\n".intercalate ((shown g₀).map fun p =>
      s!"{p.1} in {p.2.1.text}" ++ String.join (p.2.2.toList.map g₀.dependencyLine)) := by
    intro g₀
    simp only [Graph.text, shown, List.map_map, Function.comp_def]
  rw [hwritten, hwritten, hshown, funext h.dependencyLine]

end Graph.Alike

namespace System

variable {services : List Service} {type : Label → ValueType} {happened : List Stimulus}

/-! ## Promises -/

/-- A promise was made when a service was asked to be installed. -/
def PromisedFor (happened : List Stimulus) (d : Service) (k : Ticket) : Prop :=
  ∃ (before after : List Stimulus) (origin : Origin),
    happened = before ++ .request origin (.install d) :: after ∧
    (initial.run before).world.pledges.length = k

theorem promisedFor_snoc {x : Stimulus} {d : Service} {k : Ticket} :
    PromisedFor (happened ++ [x]) d k ↔ PromisedFor happened d k ∨
      ∃ origin, x = .request origin (.install d) ∧
        (initial.run happened).world.pledges.length = k := by
  constructor
  · rintro ⟨before, after, origin, hsplit, hk⟩
    rcases append_eq_split.mp hsplit with ⟨rfl, rfl, _⟩ | ⟨after, _, rfl⟩
    · exact .inr ⟨origin, rfl, hk⟩
    · exact .inl ⟨before, after, origin, rfl, hk⟩
  · rintro (⟨before, after, origin, rfl, hk⟩ | ⟨origin, rfl, hk⟩)
    · exact ⟨before, after ++ [x], origin, by simp, hk⟩
    · exact ⟨happened, [], origin, rfl, hk⟩

/-- Promises are made in the order of the requests. -/
theorem OnlyInstalls.promisedFor_iff (h : OnlyInstalls happened)
    (hf : Fits type (installRequests happened)) {d : Service} {k : Ticket} :
    PromisedFor happened d k ↔ (installRequests happened)[k]? = some d := by
  induction h with
  | opened origin =>
      refine iff_of_false ?_ (by simp [installRequests])
      rintro ⟨before, after, origin', hsplit, _⟩
      cases before <;> simp at hsplit
  | @went happened x h hx ih =>
      have hnot : ∀ origin, x ≠ .request origin (.install d) := by
        rintro origin rfl
        cases hx
      rw [installRequests_went hx] at hf ⊢
      rw [promisedFor_snoc, ih hf, or_iff_left]
      rintro ⟨origin, he, _⟩
      exact hnot origin he
  | @requested happened h origin e ih =>
      rw [installRequests_requested] at hf ⊢
      have hbefore := hf.sublist (List.sublist_append_left _ [e])
      rw [promisedFor_snoc, ih hbefore, (h.run hbefore).pledges, List.getElem?_append]
      split
      · next hlt =>
          refine or_iff_left ?_
          rintro ⟨_, _, hk⟩
          omega
      · next hle =>
          rw [List.getElem?_eq_none (Nat.le_of_not_lt hle), List.getElem?_singleton]
          constructor
          · rintro (hnone | ⟨origin', he, rfl⟩)
            · cases hnone
            · cases he
              simp
          · intro hd
            split at hd
            · next hk =>
                exact .inr ⟨origin, by rw [Option.some.inj hd], by omega⟩
            · cases hd

theorem OnlyInstalls.of_append {happened' : List Stimulus}
    (h : OnlyInstalls (happened ++ happened')) (hne : happened ≠ []) : OnlyInstalls happened := by
  generalize hl : happened ++ happened' = l at h
  induction h generalizing happened' with
  | opened origin =>
      have hone := congrArg List.length hl
      have hpos := List.length_pos_iff.mpr hne
      simp only [List.length_append, List.length_singleton] at hone
      obtain rfl : happened' = [] := List.length_eq_zero_iff.mp (by omega)
      rw [← List.append_nil happened, hl]
      exact .opened origin
  | went h hx ih =>
      cases happened' using List.reverseRecOn with
      | nil =>
          rw [← List.append_nil happened, hl]
          exact h.went hx
      | append_singleton happened' y =>
          rw [← List.append_assoc] at hl
          exact ih (List.append_inj_left' hl rfl)
  | requested h origin d ih =>
      cases happened' using List.reverseRecOn with
      | nil =>
          rw [← List.append_nil happened, hl]
          exact h.requested origin d
      | append_singleton happened' y =>
          rw [← List.append_assoc] at hl
          exact ih (List.append_inj_left' hl rfl)

/-! ## Who has started -/

section Rests

variable {asked : List Service} {s : System} {m : Name}

/-- Whoever is to be installed is, once nothing is under way any more. -/
theorem Installing.hosted (h : Installing type asked s) (ho : s.Orderly) (hs : s.Settled) {i : Nat}
    {d : Service} (hd : asked[i]? = some d) : ∃ (n : Node) (c : Controller),
      s.container.graph.nodes[d.name]? = some n ∧ n.inbox = i ∧ s.controllers[i]? = some c ∧
      c.plan = d.plan none := by
  have hline : s.controllers.map (·.plan) = asked.map (·.plan none) := by
    have hline := congrArg (List.map Prod.fst) h.lined
    rwa [hs.requests, List.filterMap_nil, List.append_nil, List.zipIdx_map_fst,
      List.zipIdx_map_fst] at hline
  have hplan := congrArg (·[i]?) hline
  simp only [List.getElem?_map, hd, Option.map_some, Option.map_eq_some_iff] at hplan
  obtain ⟨c, hc, hplan⟩ := hplan
  obtain ⟨m, n, hn, hi⟩ : ∃ m, s.container.graph.Hosts m i := by
    by_contra hno
    push Not at hno
    have hallows := (h.tame hc).state
    simp [((ho.steady hs).ended hc hno).1, Phase.Allows] at hallows
  obtain ⟨b, hb, hname, _⟩ := (ho.steady hs).installed hn
  obtain rfl := Option.some.inj (hc.symm.trans (hi ▸ hb))
  rw [hplan, Declaration.plan_name] at hname
  exact ⟨n, c, hname ▸ hn, hi, hc, hplan⟩

/-- What has started could start: its dependencies were there before it, so that none of them goes
back to itself. -/
theorem Installing.founded (h : Installing type asked s) (ho : s.Orderly) (hs : s.Settled)
    (hm : s.HasStarted m) : Founded asked m := by
  have hsteady := ho.steady hs
  obtain ⟨rank, hrank⟩ := ho.consistent.ordered.ranked
  -- by induction on the order in which services started
  induction hr : rank m using Nat.strongRecOn generalizing m with
  | ind r ih =>
      obtain ⟨n, c, hn, hc, hst⟩ := hm
      obtain ⟨d, b, hd, rfl, hb, hplan, hl⟩ := h.known ho hn
      obtain rfl := Option.some.inj (hc.symm.trans hb)
      obtain ⟨b, hb, _, hstate, _, _, hrests⟩ := hsteady.installed hn
      obtain rfl := Option.some.inj (hc.symm.trans hb)
      have hall : ∀ e ∈ c.plan.dependencies, s.HasStarted e := by
        rcases hrests with ⟨_, hall⟩ | ⟨hw, _⟩
        · exact hall
        · simp [hst] at hw
      have hres : n.resolved = true :=
        ho.consistent.ordered.resolved hn (by rw [← hstate, hst]; decide)
      refine .intro hd fun e he => ?_
      rw [← Declaration.mem_plan_dependencies, ← hplan] at he
      exact ih (rank e) (hr ▸ hrank hn hres (hl.dependencies ▸ he)) (hall e he) rfl

/-- What can start has started. -/
theorem Installing.hasStarted (h : Installing type asked s) (ho : s.Orderly) (hs : s.Settled)
    (hm : Founded asked m) : s.HasStarted m := by
  induction hm with
  | @intro d hd _ ih =>
      obtain ⟨i, hi⟩ := List.mem_iff_getElem?.mp hd
      obtain ⟨n, c, hn, rfl, hc, hplan⟩ := h.hosted ho hs hi
      obtain ⟨b, hb, _, _, _, _, hrests⟩ := (ho.steady hs).installed hn
      obtain rfl := Option.some.inj (hc.symm.trans hb)
      rcases hrests with ⟨hst, _⟩ | ⟨_, e, he, hno⟩
      · exact ⟨n, c, hn, hc, hst⟩
      · rw [hplan, Declaration.mem_plan_dependencies] at he
        exact absurd (ih e he) hno

/-- Whoever invokes `start` finds all its dependencies started. -/
theorem Installing.ordered (h : Installing type asked s) (ho : s.Orderly) {x : Stimulus} {i : Nat}
    {c : Controller} (he : .injectAndStart ∈ s.effects x i) (hc : s.controllers[i]? = some c)
    {e : Name} (hd : e ∈ c.plan.dependencies) : s.HasStarted e := by
  obtain ⟨b, _, hb, hcan, hstarts, _⟩ := take_of_effects he
  obtain rfl := Option.some.inj (hc.symm.trans hb)
  have htame := h.tame hc
  obtain ⟨m, n, hn, rfl⟩ : ∃ m, s.container.graph.Hosts m i := by
    by_contra hno
    push Not at hno
    have hallows := htame.state
    simp [ho.consistent.gone hc hno, Phase.Allows] at hallows
  obtain ⟨b, hb, hl⟩ := ho.consistent.linked hn
  obtain rfl := Option.some.inj (hc.symm.trans hb)
  have havailable : .dependenciesAvailable ∈ c.signals := by
    rcases c.take_cases hcan n.inbox s.world with
      ⟨_, _, _, _, hnone, _⟩ | ⟨a, rest, _, hi, _, hm, _⟩
    · simp [hnone] at hstarts
    · have hmem : a.signal ∈ c.signals := by
        rw [c.signals_cons hi]
        simp [Message.signal?]
      rcases hm.of_start htame.state (htame.signals _ hmem) with ⟨hsignal, _⟩ | ⟨_, _, heffects⟩
      · exact hsignal ▸ hmem
      · simp [heffects] at hstarts
  obtain ⟨k, b, hk, hb, huse⟩ :=
    ho.consistent.inUse hn (hl.available havailable) (hl.dependencies ▸ hd)
  refine ⟨k, b, hk, hb, ?_⟩
  rcases huse with hst | hst
  · exact hst
  · have hallows := (h.tame hb).state
    simp [hst, Phase.Allows] at hallows

end Rests

/-! ## The outcome -/

/-- How a service comes to rest: if it can start it has started, once, and else it waits. -/
structure ComesToRest (services : List Service) (happened : List Stimulus) (d : Service) (n : Node)
    (c : Controller) : Prop where
  node : (initial.run happened).container.graph.nodes[d.name]? = some n
  controller : (initial.run happened).controllers[n.inbox]? = some c
  plan : c.plan = d.plan none
  state : c.state = n.state
  dependencies : n.dependencies = (d.plan none).dependencies
  group : n.group = d.group
  references : n.references = Names.ofList (d.plan none).rosters.keys
  stopping : n.stopping = false
  pending : n.pendingDependents = none
  started : Founded services d.name → n.state = .started ∧ n.value = some d.value ∧
    n.resolved = true ∧ (initial.trace happened n.inbox).count .injectAndStart = 1
  waiting : ¬Founded services d.name → n.state = .waiting ∧ n.value = none ∧
    n.resolved = false ∧ .injectAndStart ∉ initial.trace happened n.inbox

/-- What the installation of services leaves, once nothing is under way any more. -/
structure Installed (services : List Service) (happened : List Stimulus) : Prop where
  names : ∀ m, (initial.run happened).container.graph.contains m = true ↔
    ∃ d ∈ services, d.name = m
  rests : ∀ d ∈ services, ∃ n c, ComesToRest services happened d n c
  ordered : ∀ {before after : List Stimulus} {x : Stimulus} {i : Nat} {c : Controller} {e : Name},
    happened = before ++ x :: after → .injectAndStart ∈ (initial.run before).effects x i →
    (initial.run before).controllers[i]? = some c → e ∈ c.plan.dependencies →
    (initial.run before).HasStarted e
  answered : ∀ {k : Ticket} {o : Except Error Answer},
    (initial.run happened).world.outcome? k = some o ↔ ∃ d ∈ services, Founded services d.name ∧
      PromisedFor happened d k ∧ o = .ok (Turn.startAnswer (d.plan none))
  slots : ∀ {l : Label} {slot : Slot}, (initial.run happened).world.cells.slot? l = some slot →
    (∀ p, slot.content = some p → Provided services l p) ∧
      ((∃ p, Provided services l p) → slot.content.isSome = true)
  rosters : ∀ {l : Label} {roster : Roster},
    (initial.run happened).world.cells.roster? l = some roster →
    ∀ p : Name × Value, roster.members[p.1]? = some p.2 ↔
      p.2.type = roster.type ∧ Listed services l p

namespace OnlyInstalls

theorem comesToRest (h : OnlyInstalls happened) (hf : Fits type (installRequests happened))
    (hs : (initial.run happened).Settled) {i : Nat} {d : Service}
    (hd : (installRequests happened)[i]? = some d) : ∃ n c,
      ComesToRest (installRequests happened) happened d n c ∧ n.inbox = i := by
  have hall := h.run hf
  have ho := orderly_run h.not_cancel
  have hord := ho.consistent.ordered
  obtain ⟨n, c, hn, rfl, hc, hplan⟩ := hall.hosted ho hs hd
  obtain ⟨b, hb, _, hstate, hstop, hpending, hrests⟩ := (ho.steady hs).installed hn
  obtain rfl := Option.some.inj (hc.symm.trans hb)
  obtain ⟨b, hb, hl⟩ := ho.consistent.linked hn
  obtain rfl := Option.some.inj (hc.symm.trans hb)
  have hfounded : (initial.run happened).HasStarted d.name ↔
      Founded (installRequests happened) d.name :=
    ⟨hall.founded ho hs, hall.hasStarted ho hs⟩
  have hstarted : (initial.run happened).HasStarted d.name ↔ c.state = .started := by
    constructor
    · rintro ⟨n', c', hn', hc', hst⟩
      obtain rfl := Option.some.inj (hn.symm.trans hn')
      obtain rfl := Option.some.inj (hc.symm.trans hc')
      exact hst
    · exact fun hst => ⟨n, c, hn, hc, hst⟩
  obtain ⟨b, hb, -, hgroup, hreferences⟩ := enrolled_run happened hn
  obtain rfl := Option.some.inj (hc.symm.trans hb)
  rw [hplan] at hgroup hreferences
  rw [Declaration.plan_group] at hgroup
  refine ⟨n, c, ⟨hn, hc, hplan, hstate, hplan ▸ hl.dependencies.symm, hgroup, hreferences, hstop,
    hpending, fun hfound => ?_, fun hno => ?_⟩, rfl⟩
  · have hst := hstarted.mp (hfounded.mpr hfound)
    have hnode : n.state = .started := hstate ▸ hst
    refine ⟨hnode, ?_, hord.resolved hn (by rw [hnode]; decide), ?_⟩
    · obtain ⟨v, hv⟩ := Option.isSome_iff_exists.mp (hord.exposed hn hnode hstop)
      rw [hv, hl.value v hv, hplan, Declaration.plan_value]
    · exact (begun_run h.not_cancel hc).once (by simp [hst, State.phase])
        (by simp [hst, State.phase])
  · have hw : c.state = .waiting := by
      rcases hrests with ⟨hst, _⟩ | ⟨hw, _⟩
      · exact absurd (hfounded.mp (hstarted.mpr hst)) hno
      · exact hw
    have hnode : n.state = .waiting := hstate ▸ hw
    refine ⟨hnode, ?_, ?_, ?_⟩
    · by_contra hvalue
      have hst := hord.exposing hn (Option.isSome_iff_ne_none.mpr hvalue)
      simp [hnode] at hst
    · by_contra hres
      have hgiven := hl.given (by simpa using hres) hw
      simp [hs.signals hc] at hgiven
    · exact List.count_eq_zero.mp ((begun_run h.not_cancel hc).waiting hw)

theorem rests (h : OnlyInstalls happened) (hf : Fits type (installRequests happened))
    (hs : (initial.run happened).Settled) {d : Service} (hd : d ∈ installRequests happened) :
    ∃ n c, ComesToRest (installRequests happened) happened d n c := by
  obtain ⟨i, hi⟩ := List.mem_iff_getElem?.mp hd
  obtain ⟨n, c, hrest, _⟩ := h.comesToRest hf hs hi
  exact ⟨n, c, hrest⟩

/-- Exactly those are answered whose service has started. -/
theorem answered (h : OnlyInstalls happened) (hf : Fits type (installRequests happened))
    (hs : (initial.run happened).Settled) {k : Ticket} {o : Except Error Answer} :
    (initial.run happened).world.outcome? k = some o ↔
      ∃ d ∈ installRequests happened, Founded (installRequests happened) d.name ∧
        PromisedFor happened d k ∧ o = .ok (Turn.startAnswer (d.plan none)) := by
  have hall := h.run hf
  have hno := h.not_cancel
  rw [World.outcome?_eq_some]
  constructor
  · intro hstatus
    have hlt : k < (installRequests happened).length := by
      rw [← hall.pledges]
      by_contra hle
      rw [World.status_eq_none.mpr (Nat.le_of_not_lt hle)] at hstatus
      cases hstatus
    have hd := List.getElem?_eq_getElem hlt
    generalize (installRequests happened)[k] = d at hd
    obtain ⟨n, c, hrest, rfl⟩ := h.comesToRest hf hs hd
    rcases hall.paid hrest.controller with hopen | ⟨hnone, hpaid⟩
    · have hhand : (initial.run happened).world.status n.inbox = some none :=
        (owned_run hno).mem_hands.mp (List.mem_append_right _
          (List.mem_filterMap.mpr ⟨c, List.mem_of_getElem? hrest.controller, hopen⟩))
      simp [hhand] at hstatus
    · refine ⟨d, List.mem_of_getElem? hd, ?_, (h.promisedFor_iff hf).mpr hd, ?_⟩
      · by_contra hunfounded
        have howes := (owes_run hno hrest.controller).mpr
          (by simp [hrest.state, (hrest.waiting hunfounded).1, State.phase])
        simp [hnone] at howes
      · rw [hpaid] at hstatus
        rw [← hrest.plan]
        exact (Option.some.inj (Option.some.inj hstatus)).symm
  · rintro ⟨d, _, hfound, hpromised, rfl⟩
    obtain ⟨n, c, hrest, rfl⟩ := h.comesToRest hf hs ((h.promisedFor_iff hf).mp hpromised)
    rcases hall.paid hrest.controller with hopen | ⟨_, hpaid⟩
    · have howes := (owes_run hno hrest.controller).mp (by simp [hopen])
      rw [hrest.state, (hrest.started hfound).1] at howes
      simp [State.phase] at howes
    · rw [hpaid, hrest.plan]

/-- A slot holds what there is for it. -/
theorem provided (h : OnlyInstalls happened) (hf : Fits type (installRequests happened))
    (hs : (initial.run happened).Settled) {l : Label} {slot : Slot}
    (hslot : (initial.run happened).world.cells.slot? l = some slot) :
    (∀ p, slot.content = some p → Provided (installRequests happened) l p) ∧
      ((∃ p, Provided (installRequests happened) l p) → slot.content.isSome = true) := by
  have hall := h.run hf
  have hfilled := h.filled hf
  constructor
  · intro p hp
    obtain ⟨hvalue, i, c, hc, hw, hl⟩ := hfilled.sourced hslot hp
    obtain ⟨d, hd, hplan⟩ := hall.lined.declared hc
    obtain ⟨n, _, hrest, rfl⟩ := h.comesToRest hf hs hd
    obtain rfl := Option.some.inj (hc.symm.trans hrest.controller)
    rw [hplan, Declaration.mem_plan_slotsOf] at hl
    refine ⟨d, List.mem_of_getElem? hd, ?_, hl, hvalue⟩
    by_contra hno
    exact hw (hrest.state.trans (hrest.waiting hno).1)
  · rintro ⟨p, d, hd, hfound, hb, _⟩
    obtain ⟨n, c, hrest⟩ := h.rests hf hs hd
    refine hfilled.filled (e := p.1) hrest.controller ?_ ?_ hslot
    · rw [hrest.state, (hrest.started hfound).1]
      decide
    · rwa [hrest.plan, Declaration.mem_plan_slotsOf]

/-- What a service was told of a group it has a roster for adds up to who is shown there. -/
theorem replay_of_rosterFor? (h : OnlyInstalls happened) (hf : Fits type (installRequests happened))
    (hs : (initial.run happened).Settled) {i : Nat} {e : Service} {group : Name} {l : Label}
    (he : (installRequests happened)[i]? = some e) (hl : e.rosterFor? group = some l) (m : Name) :
    (replay group (updatesTo i (Trial.fresh.trace (initial.history happened))))[m]? =
      (initial.run happened).container.graph.member? group m := by
  obtain ⟨n, c, hrest, rfl⟩ := h.comesToRest hf hs he
  have hgraph := (mirrors_run happened).graph
  have hrefers : group ∈ n.references := by
    rw [hrest.references, Names.mem_ofList, Std.ExtTreeMap.mem_keys,
      Std.ExtTreeMap.mem_iff_isSome_getElem?, Declaration.plan_rosters, hl]
    rfl
  rw [← hgraph]
  exact Trial.replay_told ⟨e.name, n, hgraph ▸ hrest.node, rfl, hrefers⟩ m

/-- Whoever is shown in a group can start. -/
theorem founded_of_member? (h : OnlyInstalls happened) (hf : Fits type (installRequests happened))
    (hs : (initial.run happened).Settled) {d : Service} (hd : d ∈ installRequests happened)
    {group : Name}
    (hshown : ((initial.run happened).container.graph.member? group d.name).isSome) :
    Founded (installRequests happened) d.name := by
  by_contra hno
  obtain ⟨n, _, hrest⟩ := h.rests hf hs hd
  rw [Graph.member?, hrest.node, Option.bind_some, (hrest.waiting hno).2.1] at hshown
  simp at hshown

/-- Whoever can start is shown in its group. -/
theorem member?_of_founded (h : OnlyInstalls happened) (hf : Fits type (installRequests happened))
    (hs : (initial.run happened).Settled) {d : Service} (hd : d ∈ installRequests happened)
    (hfound : Founded (installRequests happened) d.name) {group : Name}
    (hgroup : d.group = some group) :
    (initial.run happened).container.graph.member? group d.name = some d.value := by
  obtain ⟨n, _, hrest⟩ := h.rests hf hs hd
  rw [Graph.member?, hrest.node, Option.bind_some,
    if_pos ⟨hrest.group.trans hgroup, hrest.stopping⟩]
  exact (hrest.started hfound).2.1

/-- Whoever binds a roster to a group took in that those joined it that can start. -/
theorem takenIn_iff (h : OnlyInstalls happened) (hf : Fits type (installRequests happened))
    (hs : (initial.run happened).Settled) {l : Label} {p : Name × Value} :
    TakenIn happened l p ↔ Listed (installRequests happened) l p := by
  obtain ⟨a, v⟩ := p
  constructor
  · rintro ⟨i, c, group, hc, hl, hu⟩
    obtain ⟨e, he, hplan⟩ := (h.run hf).lined.declared hc
    rw [hplan, Declaration.plan_rosters] at hl
    have hu := h.told_of_intake hf hu
    obtain ⟨d, hd, _, hgroup, hadded⟩ := h.told hf hu
    obtain ⟨rfl, rfl, rfl⟩ := GroupUpdate.added.inj hadded
    refine ⟨d, hd, ?_, rfl, rfl, group, hgroup, e, List.mem_of_getElem? he, hl⟩
    have hmember := mem_replay_of_added hu fun hremoved => by
      obtain ⟨_, _, _, _, hadded⟩ := h.told hf hremoved
      cases hadded
    rw [h.replay_of_rosterFor? hf hs he hl] at hmember
    exact h.founded_of_member? hf hs hd hmember
  · rintro ⟨d, hd, hfound, rfl, rfl, group, hgroup, e, he, hl⟩
    obtain ⟨i, hi⟩ := List.mem_iff_getElem?.mp he
    obtain ⟨_, c, hbinds, rfl⟩ := h.comesToRest hf hs hi
    have hmember := h.member?_of_founded hf hs hd hfound hgroup
    rw [← h.replay_of_rosterFor? hf hs hi hl] at hmember
    have hadded := added_mem_of_replay hmember
    have hmem := List.mem_of_getElem? hbinds.controller
    rw [updates_run happened fun hc => (h.run hf).alive _ (List.mem_of_getElem? hc),
      inboxOf_eq hbinds.controller, hs.messages c hmem, List.filterMap_nil, List.append_nil] at hadded
    refine ⟨_, c, group, hbinds.controller, ?_, hadded⟩
    rw [hbinds.plan, Declaration.plan_rosters, hl]

/-- A roster shows who belongs on it. -/
theorem listed (h : OnlyInstalls happened) (hf : Fits type (installRequests happened))
    (hs : (initial.run happened).Settled) {l : Label} {roster : Roster}
    (hroster : (initial.run happened).world.cells.roster? l = some roster) (p : Name × Value) :
    roster.members[p.1]? = some p.2 ↔
      p.2.type = roster.type ∧ Listed (installRequests happened) l p := by
  rw [h.showing hf (Cells.getElem?_of_roster? hroster) p, h.takenIn_iff hf hs]

theorem installed_of_fits (h : OnlyInstalls happened) (hf : Fits type (installRequests happened))
    (hs : (initial.run happened).Settled) : Installed (installRequests happened) happened := by
  have hall := h.run hf
  have ho := orderly_run h.not_cancel
  refine ⟨fun m => ?_, fun d hd => h.rests hf hs hd, ?_, h.answered hf hs, h.provided hf hs,
    h.listed hf hs⟩
  · rw [Graph.contains_eq, Option.isSome_iff_exists]
    constructor
    · rintro ⟨n, hn⟩
      obtain ⟨d, _, hd, hname, _⟩ := hall.known ho hn
      exact ⟨d, hd, hname⟩
    · rintro ⟨d, hd, rfl⟩
      obtain ⟨i, hi⟩ := List.mem_iff_getElem?.mp hd
      obtain ⟨n, _, hn, _⟩ := hall.hosted ho hs hi
      exact ⟨n, hn⟩
  · rintro before after x i c e rfl he hc hd
    have hne : before ≠ [] := by
      rintro rfl
      have hnone : (initial.run []).controllers[i]? = none := rfl
      simp [hnone] at hc
    have hbefore := h.of_append hne
    have hfits : Fits type (installRequests before) :=
      hf.sublist (List.Sublist.filterMap _ (List.sublist_append_left _ _))
    exact (hbefore.run hfits).ordered (orderly_run hbefore.not_cancel) he hc hd

/-- Services that are installed in another order come to rest alike. -/
theorem alike {other : List Stimulus} (h : OnlyInstalls happened) (h' : OnlyInstalls other)
    (hf : Fits type (installRequests happened))
    (hp : (installRequests other).Perm (installRequests happened))
    (hs : (initial.run happened).Settled) (hs' : (initial.run other).Settled) :
    (initial.run happened).container.graph.Alike (initial.run other).container.graph := by
  have hleft := h.installed_of_fits hf hs
  have hright := h'.installed_of_fits (hf.perm hp.symm) hs'
  have hfounded : ∀ m, Founded (installRequests other) m ↔ Founded (installRequests happened) m :=
    fun m => ⟨Founded.mono hp.subset, Founded.mono hp.symm.subset⟩
  intro m
  by_cases hm : ∃ d ∈ installRequests happened, d.name = m
  · obtain ⟨d, hd, rfl⟩ := hm
    obtain ⟨n, c, hn⟩ := hleft.rests d hd
    obtain ⟨n', c', hn'⟩ := hright.rests d (hp.mem_iff.mpr hd)
    rw [hn.node, hn'.node]
    have hdep := hn'.dependencies.trans hn.dependencies.symm
    have hgroup := hn'.group.trans hn.group.symm
    have hrefs := hn'.references.trans hn.references.symm
    have hstop := hn'.stopping.trans hn.stopping.symm
    have hpending := hn'.pending.trans hn.pending.symm
    by_cases hfound : Founded (installRequests happened) d.name
    · obtain ⟨hst, hv, hr, _⟩ := hn.started hfound
      obtain ⟨hst', hv', hr', _⟩ := hn'.started ((hfounded _).mpr hfound)
      exact .some ⟨hdep, hgroup, hrefs, hst'.trans hst.symm, hv'.trans hv.symm, hr'.trans hr.symm,
        hstop, hpending⟩
    · obtain ⟨hw, hv, hr, _⟩ := hn.waiting hfound
      obtain ⟨hw', hv', hr', _⟩ := hn'.waiting (mt (hfounded _).mp hfound)
      exact .some ⟨hdep, hgroup, hrefs, hw'.trans hw.symm, hv'.trans hv.symm, hr'.trans hr.symm,
        hstop, hpending⟩
  · rw [Graph.not_contains_iff.mp (mt (hleft.names m).mp hm),
      Graph.not_contains_iff.mp (mt (hright.names m).mp ?_)]
    · exact .none
    · rintro ⟨d, hd, hname⟩
      exact hm ⟨d, hp.mem_iff.mp hd, hname⟩

/-- A slot for which there is one value only comes to hold the same. -/
theorem slot_eq {other : List Stimulus} (h : OnlyInstalls happened) (h' : OnlyInstalls other)
    (hf : Fits type (installRequests happened))
    (hp : (installRequests other).Perm (installRequests happened))
    (hs : (initial.run happened).Settled) (hs' : (initial.run other).Settled) {l : Label}
    (hone : ∀ p q, Provided (installRequests happened) l p →
      Provided (installRequests happened) l q → p = q) {slot slot' : Slot}
    (hslot : (initial.run happened).world.cells.slot? l = some slot)
    (hslot' : (initial.run other).world.cells.slot? l = some slot') : slot' = slot := by
  have hf' := hf.perm hp.symm
  obtain ⟨hin, hsome⟩ := h.provided hf hs hslot
  obtain ⟨hin', hsome'⟩ := h'.provided hf' hs' hslot'
  have htype := ((h'.run hf').slots hslot').trans ((h.run hf).slots hslot).symm
  have hcontent : slot'.content = slot.content := by
    cases hc : slot.content with
    | some p =>
        have hprov := hin p hc
        obtain ⟨q, hq⟩ := Option.isSome_iff_exists.mp (hsome' ⟨p, hprov.mono hp.symm.subset⟩)
        rw [hq, hone q p ((hin' q hq).mono hp.subset) hprov]
    | none =>
        refine Option.eq_none_iff_forall_ne_some.mpr fun q hq => ?_
        simpa [hc] using hsome ⟨q, (hin' q hq).mono hp.subset⟩
  cases slot
  cases slot'
  simp_all

/-- A roster that takes values of the same type comes to show the same. -/
theorem members_eq {other : List Stimulus} (h : OnlyInstalls happened) (h' : OnlyInstalls other)
    (hf : Fits type (installRequests happened))
    (hp : (installRequests other).Perm (installRequests happened))
    (hs : (initial.run happened).Settled) (hs' : (initial.run other).Settled) {l : Label}
    {roster roster' : Roster} (hroster : (initial.run happened).world.cells.roster? l = some roster)
    (hroster' : (initial.run other).world.cells.roster? l = some roster')
    (htype : roster'.type = roster.type) : roster'.members = roster.members := by
  have hlisted : ∀ {p}, Listed (installRequests other) l p ↔ Listed (installRequests happened) l p :=
    ⟨Listed.mono hp.subset, Listed.mono hp.symm.subset⟩
  refine Std.ExtTreeMap.ext_getElem? fun m => Option.ext fun v => ?_
  rw [h.listed hf hs hroster (m, v), h'.listed (hf.perm hp.symm) hs' hroster' (m, v), htype,
    hlisted]

end OnlyInstalls

/-- What two runs leave alike: the graph, how it is written, all slots for which there is one value
only, and who is on a roster, if it takes values of the same type in both. -/
structure SameOutcome (services : List Service) (s s' : System) : Prop where
  graph : s.container.graph.Alike s'.container.graph
  text : s'.container.graph.text = s.container.graph.text
  slots : ∀ {l : Label} {slot slot' : Slot},
    (∀ p q, Provided services l p → Provided services l q → p = q) →
    s.world.cells.slot? l = some slot → s'.world.cells.slot? l = some slot' → slot' = slot
  rosters : ∀ {l : Label} {roster roster' : Roster}, s.world.cells.roster? l = some roster →
    s'.world.cells.roster? l = some roster' → roster'.type = roster.type →
    roster'.members = roster.members

/-- In whatever order services that fit together are installed, those start in the end that can, and
the others wait. -/
theorem installed_run (h : OnlyInstalls happened) (hf : Fits type (installRequests happened))
    (hs : (initial.run happened).Settled) : Installed (installRequests happened) happened ∧
      ∀ {other : List Stimulus}, OnlyInstalls other →
        (installRequests other).Perm (installRequests happened) → (initial.run other).Settled →
        SameOutcome (installRequests happened) (initial.run happened) (initial.run other) := by
  refine ⟨h.installed_of_fits hf hs, fun h' hp hs' => ?_⟩
  have halike := h.alike h' hf hp hs hs'
  exact ⟨halike, halike.text, fun hone hslot => h.slot_eq h' hf hp hs hs' hone hslot,
    fun hroster => h.members_eq h' hf hp hs hs' hroster⟩

/-- Services are installed one after the other, and everyone takes turns in between. -/
def installsInTurn (rounds : Nat) (services : List Service) : List Stimulus :=
  .request (.request 0) .start :: (services.map fun d =>
    .request (.request 1) (.install d) :: turns rounds services.length).flatten

theorem onlyInstalls_installsInTurn (rounds : Nat) (services : List Service) :
    OnlyInstalls (installsInTurn rounds services) := by
  rw [installsInTurn, ← List.singleton_append]
  generalize services.length = n
  induction services using List.reverseRecOn with
  | nil => exact .opened _
  | append_singleton services d ih =>
      rw [List.map_append, List.map_singleton, List.flatten_append, List.flatten_singleton,
        ← List.append_assoc, List.append_cons]
      exact (ih.requested _ d).goesOn (isInternal_turns rounds n)

/-- A service with a slot for the value of another one, which comes later and is a member of a group,
two that need each other, and one that needs a service nobody installs and has a roster for the
group. -/
def mixedServices : List Service :=
  [{ plainService "reader" [] with slots := [⟨"base", .u64, "l"⟩] }, plainService "ping" ["pong"],
    { plainService "base" [] with value := .u64 7, group := some "group" },
    plainService "pong" ["ping"],
    { plainService "lost" ["none"] with rosters := [⟨"group", .u64, "m", false⟩] }]

theorem fits_mixedServices : Fits (fun _ => .u64) mixedServices := by
  refine ⟨by decide, by decide, by decide, by decide⟩

theorem installed_mixedServices :
    OnlyInstalls (installsInTurn 6 mixedServices) ∧
      Fits (fun _ => .u64) (installRequests (installsInTurn 6 mixedServices)) ∧
      (initial.run (installsInTurn 6 mixedServices)).Settled ∧
      Installed mixedServices (installsInTurn 6 mixedServices) ∧
      SameOutcome mixedServices (initial.run (installsInTurn 6 mixedServices))
        (initial.run (installsInTurn 6 mixedServices.reverse)) := by
  have h := onlyInstalls_installsInTurn 6 mixedServices
  have h' := onlyInstalls_installsInTurn 6 mixedServices.reverse
  have hf : Fits (fun _ => .u64) (installRequests (installsInTurn 6 mixedServices)) :=
    fits_mixedServices
  have hs : (initial.run (installsInTurn 6 mixedServices)).Settled := by decide +kernel
  have hs' : (initial.run (installsInTurn 6 mixedServices.reverse)).Settled := by decide +kernel
  have hp : (installRequests (installsInTurn 6 mixedServices.reverse)).Perm
      (installRequests (installsInTurn 6 mixedServices)) := mixedServices.reverse_perm
  obtain ⟨hinstalled, hsame⟩ := installed_run h hf hs
  exact ⟨h, hf, hs, hinstalled, hsame h' hp hs'⟩

end System

end ServiceHost
