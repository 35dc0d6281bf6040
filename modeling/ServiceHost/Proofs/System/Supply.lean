import ServiceHost.Proofs.Graph.Supply
import ServiceHost.Proofs.System.Orderly

/-! # What a step gives to whom

Only the registration of a service and the report of a start put dependencies into an inbox: those
of a service that was not given its dependencies before. -/

namespace ServiceHost

open ServiceHost.Graph (gift Supplies Passage signalsTo)

namespace System

/-- How often the controller of a number has its dependencies before it. -/
def offers (s : System) (i : Nat) (values : List (Name × Value)) : Nat :=
  (s.controllers[i]?.map (·.offers values)).getD 0

/-- In a step, a controller is given the value that is exposed under a name by the service with
another controller. -/
def Supplies (s : System) (x : Stimulus) (i : Nat) (d : Name) (y : Nat) : Prop :=
  ∃ (values : List (Name × Value)) (v : Value),
    s.offers i values < (s.apply x).offers i values ∧ (d, v) ∈ values ∧
      (s.apply x).container.graph.Hosts d y ∧ (s.apply x).container.graph.exposed? d = some v

/-- A step in which no service is given its dependencies. -/
structure Withholds (s s' : System) : Prop where
  length : s'.controllers.length = s.controllers.length
  remains : ∀ {i : Nat} {c' : Controller}, s'.controllers[i]? = some c' → c'.state ≠ .removed →
    ∃ c : Controller, s.controllers[i]? = some c ∧ c.state ≠ .removed
  nodes : ∀ {m : Name} {n' : Node}, s'.container.graph.nodes[m]? = some n' →
    ∃ n : Node, s.container.graph.nodes[m]? = some n ∧ n'.inbox = n.inbox ∧
      n'.dependencies = n.dependencies ∧ n'.resolved = n.resolved
  offers : ∀ (i : Nat) (values : List (Name × Value)), s'.offers i values ≤ s.offers i values

/-- A step in which services may be given their dependencies, or be installed. -/
structure Supplying (s s' : System) : Prop where
  length : s.controllers.length ≤ s'.controllers.length
  remains : ∀ {i : Nat} {c' : Controller}, s'.controllers[i]? = some c' → c'.state ≠ .removed →
    (∃ c : Controller, s.controllers[i]? = some c ∧ c.state ≠ .removed) ∨
      s.controllers.length ≤ i
  nodes : ∀ {m : Name} {n' : Node}, s'.container.graph.nodes[m]? = some n' →
    (∃ n : Node, s.container.graph.nodes[m]? = some n ∧ n'.inbox = n.inbox ∧
      n'.dependencies = n.dependencies ∧ (n.resolved = true → n'.resolved = true)) ∨
      (s.container.graph.nodes[m]? = none ∧ s.controllers.length ≤ n'.inbox)
  offered : ∀ {i : Nat} {values : List (Name × Value)}, s.offers i values < s'.offers i values →
    ∃ (m : Name) (n' : Node), s'.container.graph.nodes[m]? = some n' ∧ n'.inbox = i ∧
      n'.resolved = true ∧ s'.container.graph.available? n'.dependencies = some values ∧
      ∀ n, s.container.graph.nodes[m]? = some n → n.resolved = false
  newly : ∀ {m : Name} {n' : Node} {c' : Controller}, s'.container.graph.nodes[m]? = some n' →
    s'.controllers[n'.inbox]? = some c' → c'.state ≠ .removed → n'.resolved = true →
    (∀ n, s.container.graph.nodes[m]? = some n → n.resolved = false) →
    ∃ values, s.offers n'.inbox values < s'.offers n'.inbox values

variable {s s' s'' : System}

theorem Supplying.exists_controller (h : s.Supplying s') {i : Nat} {c : Controller}
    (hc : s.controllers[i]? = some c) : ∃ c', s'.controllers[i]? = some c' :=
  ⟨_, List.getElem?_eq_getElem
    (Nat.lt_of_lt_of_le (List.getElem?_eq_some_iff.mp hc).1 h.length)⟩

theorem Withholds.supplying (h : s.Withholds s') : s.Supplying s' := by
  refine ⟨Nat.le_of_eq h.length.symm, fun hc hr => .inl (h.remains hc hr), fun hn => ?_,
    fun {i values} ho => ?_, fun hn hc hr hres hno => ?_⟩
  · obtain ⟨n, hn, hi, hd, hr⟩ := h.nodes hn
    exact .inl ⟨n, hn, hi, hd, fun hres => hr.trans hres⟩
  · exact absurd ho (Nat.not_lt.mpr (h.offers i values))
  · obtain ⟨n, hn, _, _, hr⟩ := h.nodes hn
    rw [hr, hno n hn] at hres
    cases hres

/-- Services and their controllers stay as they are. -/
theorem Withholds.of_same (hc : s'.controllers = s.controllers)
    (hg : s'.container.graph = s.container.graph) : s.Withholds s' := by
  refine ⟨by rw [hc], fun {i c'} h hr => ⟨c', hc ▸ h, hr⟩, fun {m n'} h => ?_, fun i values => ?_⟩
  · exact ⟨n', hg ▸ h, rfl, rfl, rfl⟩
  · rw [System.offers, hc]
    exact Nat.le_refl _

theorem Withholds.trans (h : s.Withholds s') (h' : s'.Withholds s'') : s.Withholds s'' := by
  refine ⟨h'.length.trans h.length, fun hc hr => ?_, fun hn => ?_, fun i values => ?_⟩
  · obtain ⟨c', hc', hr'⟩ := h'.remains hc hr
    exact h.remains hc' hr'
  · obtain ⟨n', hn', hi', hd', hr'⟩ := h'.nodes hn
    obtain ⟨n, hn, hi, hd, hr⟩ := h.nodes hn'
    exact ⟨n, hn, hi'.trans hi, hd'.trans hd, hr'.trans hr⟩
  · exact Nat.le_trans (h'.offers i values) (h.offers i values)

theorem Supplying.of_base (h : s'.Supplying s'') (hc : s'.controllers = s.controllers)
    (hg : s'.container.graph = s.container.graph) : s.Supplying s'' := by
  have ho : ∀ i values, s'.offers i values = s.offers i values := by
    intro i values
    rw [offers, offers, hc]
  obtain ⟨hlength, hremains, hnodes, hoffered, hnewly⟩ := h
  simp only [hc, hg, ho] at hlength hremains hnodes hoffered hnewly
  exact ⟨hlength, hremains, hnodes, hoffered, hnewly⟩

/-- What comes after services were given their dependencies and changes nothing about them. -/
theorem Supplying.congr (h : s.Supplying s') (hc : s''.controllers = s'.controllers)
    (hg : s''.container.graph = s'.container.graph) : s.Supplying s'' := by
  have ho : ∀ i values, s''.offers i values = s'.offers i values := by
    intro i values
    rw [offers, offers, hc]
  refine ⟨by rw [hc]; exact h.length, ?_, ?_, ?_, ?_⟩
  · rw [hc]
    exact h.remains
  · rw [hg]
    exact h.nodes
  · simp only [ho, hg]
    exact h.offered
  · simp only [ho, hg, hc]
    exact h.newly

/-! ## Steps of the controllers -/

/-- A controller that goes on without coming back or being given its dependencies. -/
structure Keeps (c c' : Controller) : Prop where
  removed : c.state = .removed → c'.state = .removed
  offers : ∀ values : List (Name × Value), c'.offers values ≤ c.offers values

theorem Keeps.refl (c : Controller) : Keeps c c := ⟨id, fun _ => Nat.le_refl _⟩

/-- Controllers go on, while the services stay as they are. -/
theorem Withholds.of_keeps (hg : s'.container.graph = s.container.graph)
    (hc : ∀ i : Nat, Option.Rel Keeps s.controllers[i]? s'.controllers[i]?) : s.Withholds s' := by
  refine ⟨length_of_rel hc, fun {i c'} hi hr => ?_,
    fun {m n'} hn => ⟨n', hg ▸ hn, rfl, rfl, rfl⟩, fun i values => ?_⟩
  · have hrel := hc i
    rw [hi] at hrel
    generalize s.controllers[i]? = o at hrel
    cases hrel with
    | some hk => exact ⟨_, rfl, fun h => hr (hk.removed h)⟩
  · unfold System.offers
    have hrel := hc i
    revert hrel
    generalize s.controllers[i]? = o
    generalize s'.controllers[i]? = o'
    intro hrel
    cases hrel with
    | none => exact Nat.le_refl _
    | some hk => exact hk.offers values

theorem keeps_of_noticed {c c' : Controller} (h : c.Noticed c') : Keeps c c' := by
  rcases h with rfl | rfl
  · exact .refl _
  · exact ⟨id, fun _ => Nat.le_refl _⟩

/-- How many more dependencies a controller has before it after it is told something. -/
theorem offers_told (c : Controller) (messages : List Message) (values : List (Name × Value)) :
    (c.told messages).offers values = c.offers values +
      if c.ended then 0 else messages.count (.lifecycle (.dependenciesAvailable values)) := by
  unfold Controller.told Controller.offers
  split <;> simp

theorem keeps_told {c : Controller} {messages : List Message}
    (h : .dependenciesAvailable ∉ messages.filterMap Message.signal?) :
    Keeps c (c.told messages) := by
  refine ⟨(c.told_state messages).trans, fun values => ?_⟩
  have hnone : Message.lifecycle (.dependenciesAvailable values) ∉ messages :=
    fun hm => h (List.mem_filterMap.mpr ⟨_, hm, rfl⟩)
  rw [offers_told, List.count_eq_zero_of_not_mem hnone]
  simp

theorem rel_told {l l' : List Controller} {sent : List Delivery}
    (h : ∀ j : Nat, l'[j]? = l[j]?.map (·.told (Graph.Trial.messagesTo j sent)))
    (hsent : ∀ i, .dependenciesAvailable ∉ signalsTo i sent) (i : Nat) :
    Option.Rel Keeps l[i]? l'[i]? := by
  rw [h]
  cases l[i]? with
  | none => exact .none
  | some c => exact .some (keeps_told (hsent i))

theorem withholds_calm (h : s.Calm s') : s.Withholds s' := by
  refine .of_keeps (by rw [h.container]) fun i => ?_
  have hrel := h.controllers i
  revert hrel
  generalize s.controllers[i]? = o
  generalize s'.controllers[i]? = o'
  intro hrel
  cases hrel with
  | none => exact .none
  | some hn => exact .some (keeps_of_noticed hn)

theorem withholds_joins {t : Task} {outcome : Except Failure Unit} {id : Nat}
    (h : s.Joins t outcome id s') : s.Withholds s' := by
  refine .of_keeps (by rw [h.container]) (rel_told h.controllers fun i hx => ?_)
  have hown := (event_own t outcome).own
  rw [Graph.signalsTo_cons, Graph.signalsTo_nil, List.append_nil] at hx
  split at hx
  · simp only [Message.signal?, Option.toList_some, List.mem_singleton] at hx
    rw [← hx] at hown
    simp [Signal.Own] at hown
  · simp at hx

theorem withholds_turn {id : Nat} {c : Controller} {t : Turn} (hc : s.controllers[id]? = some c)
    (ht : Turned id c s.tasks t) : s.Withholds (s.applyTurn id t) := by
  have hid : id < s.controllers.length := (List.getElem?_eq_some_iff.mp hc).1
  have ha := applies_applyTurn (t := t) hid
  refine .of_keeps (by rw [ha.container, sent_graph]) fun i => ?_
  rw [ha.controllers, List.getElem?_set]
  split
  · next hi =>
      rw [← hi, hc]
      exact .some ⟨ht.removed, ht.offers⟩
  · cases s.controllers[i]? with
    | none => exact .none
    | some c => exact .some (.refl c)

/-! ## Operations on the services -/

/-- What an operation gives is what it sends. -/
theorem Operates.gift_of_offers {outcome : Graph.Outcome} (ho : s.Operates outcome s') {i : Nat}
    {values : List (Name × Value)} (h : s.offers i values < s'.offers i values) :
    gift i values ∈ outcome.2 := by
  unfold System.offers at h
  rw [ho.controllers] at h
  cases hc : s.controllers[i]? with
  | none => simp [hc] at h
  | some c =>
      simp only [hc, Option.map_some, Option.getD_some, offers_told] at h
      by_contra hno
      have hnone : Message.lifecycle (.dependenciesAvailable values) ∉
          Graph.Trial.messagesTo i outcome.2 := fun hm => hno (Graph.mem_messagesTo.mp hm)
      simp [List.count_eq_zero_of_not_mem hnone] at h

theorem Operates.offers_of_gift {outcome : Graph.Outcome} (ho : s.Operates outcome s') {i : Nat}
    {c : Controller} {values : List (Name × Value)} (hc : s.controllers[i]? = some c)
    (hended : c.ended = false) (h : gift i values ∈ outcome.2) :
    s.offers i values < s'.offers i values := by
  have hcount : 0 < (Graph.Trial.messagesTo i outcome.2).count
      (.lifecycle (.dependenciesAvailable values)) :=
    List.count_pos_iff.mpr (Graph.mem_messagesTo.mpr h)
  unfold System.offers
  rw [ho.controllers, hc]
  simp only [Option.map_some, Option.getD_some, offers_told, hended, Bool.false_eq_true, if_false]
  omega

theorem Grounded.withholds_requestRemoval {a : Name} (h : s.Grounded)
    (ho : s.Operates (s.container.graph.requestRemoval a) s') : s.Withholds s' := by
  have hcoherent := h.consistent.ordered.coherent
  have hp := hcoherent.passage_requestRemoval a
  have hkeeps := rel_told ho.controllers (hcoherent.not_mem_requestRemoval a)
  have hsame : s.Withholds { s' with container := s.container } := .of_keeps rfl hkeeps
  refine ⟨hsame.length, hsame.remains, fun {m n'} hn' => ?_, hsame.offers⟩
  rw [ho.container] at hn'
  obtain ⟨n, hn⟩ := hcoherent.exists_of_requestRemoval hn'
  have hcarried := hp.carried hn hn'
  refine ⟨n, hn, hcarried.inbox, hcarried.dependencies, ?_⟩
  rw [Bool.eq_iff_iff, hcarried.resolved]
  exact or_iff_left (hcoherent.not_mem_requestRemoval a n.inbox)

/-- The container asks services to stop one after the other. -/
theorem Grounded.withholds_requestRemovals {names : List Name} (h : s.Grounded) :
    s.Withholds (s.requestRemovals names) := by
  unfold System.requestRemovals
  induction names generalizing s with
  | nil => exact .of_same rfl rfl
  | cons a names ih =>
      have ho := operates_applyGraph s (s.container.graph.requestRemoval a)
      exact (h.withholds_requestRemoval ho).trans (ih (h.requestRemoval ho))

theorem supplying_report {a : Name} {state : State} {value : Option Value}
    (hcoherent : s.container.graph.Coherent) (hended : EndsRemoved s.controllers)
    (ho : s.Operates (s.container.graph.report a state value) s') : s.Supplying s' := by
  have hp := hcoherent.passage_report (a := a) state value
  have hg : s'.container.graph = (s.container.graph.report a state value).1 := by rw [ho.container]
  have hold : ∀ {m : Name} {n' : Node}, s'.container.graph.nodes[m]? = some n' →
      ∃ n : Node, s.container.graph.nodes[m]? = some n ∧ Graph.Carried n n'
        (signalsTo n.inbox (s.container.graph.report a state value).2) := by
    intro m n' hn'
    rw [hg] at hn'
    obtain ⟨n, hn⟩ := hcoherent.exists_of_report hn'
    exact ⟨n, hn, hp.carried hn hn'⟩
  refine ⟨?_, fun {i c'} hc' hr => ?_, fun {m n'} hn' => ?_, fun {i values} hoff => ?_,
    fun {m n' c'} hn' hc' hr hres hno => ?_⟩
  · exact Nat.le_of_eq (length_of_map ho.controllers).symm
  · rw [ho.controllers] at hc'
    obtain ⟨c, hc, rfl⟩ := Option.map_eq_some_iff.mp hc'
    exact .inl ⟨c, hc, c.told_state _ ▸ hr⟩
  · obtain ⟨n, hn, hcarried⟩ := hold hn'
    exact .inl ⟨n, hn, hcarried.inbox, hcarried.dependencies,
      fun hres => hcarried.resolved.mpr (.inl hres)⟩
  · rw [hg]
    exact hcoherent.supplies_report a state value (ho.gift_of_offers hoff)
  · obtain ⟨n, hn, hcarried⟩ := hold hn'
    have hsignal := (hcarried.resolved.mp hres).resolve_left (by simp [hno n hn])
    obtain ⟨values, hgift⟩ := Graph.exists_gift hsignal
    rw [hcarried.inbox, ho.controllers] at hc'
    obtain ⟨c, hc, rfl⟩ := Option.map_eq_some_iff.mp hc'
    have hlive : c.ended = false := by
      by_contra he
      exact hr ((c.told_state _).trans (hended hc (by simpa using he)))
    exact ⟨values, hcarried.inbox ▸ ho.offers_of_gift hc hlive hgift⟩

theorem offers_launch (s : System) (plan : Plan) (ticket : Ticket) (i : Nat)
    (values : List (Name × Value)) :
    System.offers { s with controllers := s.controllers ++ [Controller.launch plan ticket] } i values =
      s.offers i values := by
  unfold System.offers
  rw [List.getElem?_append]
  split
  · rfl
  · next hlt =>
      rw [List.getElem?_eq_none (Nat.not_lt.mp hlt)]
      cases hi : [Controller.launch plan ticket][i - s.controllers.length]? with
      | none => rfl
      | some c =>
          rw [List.mem_singleton.mp (List.mem_of_getElem? hi)]
          rfl

theorem supplying_register {plan : Plan} {ticket : Ticket}
    (hname : s.container.graph.nodes[plan.name]? = none)
    (ho : Operates { s with controllers := s.controllers ++ [Controller.launch plan ticket] }
      (s.container.graph.register plan.registration s.controllers.length) s') :
    s.Supplying s' := by
  have hself := Graph.nodes_register_self (g := s.container.graph) plan.registration
    s.controllers.length
  have hg : s'.container.graph =
      (s.container.graph.register plan.registration s.controllers.length).1 := by rw [ho.container]
  have hlen : s'.controllers.length = s.controllers.length + 1 := by
    rw [length_of_map ho.controllers]
    simp
  have hold : ∀ {m : Name} {n' : Node}, plan.name ≠ m →
      s'.container.graph.nodes[m]? = some n' → s.container.graph.nodes[m]? = some n' := by
    intro m n' hm hn'
    rwa [hg, Graph.nodes_register_of_ne (r := plan.registration) _ hm] at hn'
  have hnew : ∀ {n' : Node}, s'.container.graph.nodes[plan.name]? = some n' →
      n'.inbox = s.controllers.length := by
    intro n' hn'
    rw [hg] at hn'
    exact Option.some.inj (hn'.symm.trans hself) ▸ rfl
  refine ⟨by omega, fun {i c'} hc' hr => ?_, fun {m n'} hn' => ?_, fun {i values} hoff => ?_,
    fun {m n' c'} hn' hc' hr hres hno => ?_⟩
  · rw [ho.controllers] at hc'
    obtain ⟨c, hc, rfl⟩ := Option.map_eq_some_iff.mp hc'
    by_cases hi : i < s.controllers.length
    · rw [List.getElem?_append_left hi] at hc
      exact .inl ⟨c, hc, c.told_state _ ▸ hr⟩
    · exact .inr (Nat.not_lt.mp hi)
  · by_cases hm : plan.name = m
    · subst hm
      exact .inr ⟨hname, Nat.le_of_eq (hnew hn').symm⟩
    · exact .inl ⟨n', hold hm hn', rfl, rfl, id⟩
  · rw [← offers_launch s plan ticket] at hoff
    rw [hg]
    exact Graph.supplies_register s.container.graph plan.registration s.controllers.length hname
      (ho.gift_of_offers hoff)
  · by_cases hm : plan.name = m
    · subst hm
      have hcarried := Graph.carried_register s.container.graph plan.registration
        s.controllers.length
      rw [hg] at hn'
      obtain rfl := Option.some.inj (hself.symm.trans hn')
      have hsignal := (hcarried.resolved.mp hres).resolve_left (by simp [Registration.node])
      obtain ⟨values, hgift⟩ := Graph.exists_gift hsignal
      have hlaunched : (s.controllers ++ [Controller.launch plan ticket])[s.controllers.length]? =
          some (Controller.launch plan ticket) := by simp
      refine ⟨values, ?_⟩
      rw [← offers_launch s plan ticket]
      exact ho.offers_of_gift hlaunched rfl hgift
    · simp [hno n' (hold hm hn')] at hres

/-! ## Whole steps -/

theorem Supplying.of_unmoved (hu : s.Unmoved s') : s.Supplying s' :=
  (Withholds.of_same hu.controllers (by rw [hu.container])).supplying

theorem supplying_install (s : System) (plan : Plan) (ticket : Ticket) :
    s.Supplying (s.install plan ticket) := by
  unfold System.install
  split
  · exact .of_unmoved (unmoved_refuse s _ _)
  · split
    · exact .of_unmoved (unmoved_refuse s _ _)
    · next hname =>
        have hname : s.container.graph.nodes[plan.name]? = none :=
          Graph.not_contains_iff.mp hname
        have ho := operates_install s plan ticket
        exact supplying_register hname ho

theorem Grounded.supplying_remove (h : s.Grounded) (name : Name) (ticket : Ticket) :
    s.Supplying (s.remove name ticket) := by
  unfold System.remove
  split
  · have hw := h.withholds_requestRemoval (operates_applyGraph s
      (s.container.graph.requestRemoval name))
    exact hw.supplying.congr rfl rfl
  · exact .of_unmoved (unmoved_settle s _ _)

theorem Grounded.supplying_close (h : s.Grounded) (ticket : Ticket) :
    s.Supplying (s.close ticket) := by
  rw [close_eq]
  split
  · exact .of_unmoved (unmoved_settle s _ _)
  · have hg : (s.beginClosing ticket).Grounded := h.congr rfl rfl rfl rfl rfl
    have hbegin : s.Withholds (s.beginClosing ticket) := .of_same rfl rfl
    have hw : s.Withholds ((s.beginClosing ticket).requestRemovals s.container.graph.roots) :=
      hbegin.trans hg.withholds_requestRemovals
    exact hw.supplying.congr (closeIfEmpty_controllers _) (closeIfEmpty_graph _)

theorem supplying_acceptReport (hcoherent : s.container.graph.Coherent)
    (hended : EndsRemoved s.controllers) (a : Name) (state : State) (value : Option Value) :
    s.Supplying (s.acceptReport a state value) := by
  have hs := supplying_report hcoherent hended (operates_applyGraph s (s.container.graph.report a state value))
  rw [acceptReport_eq]
  dsimp only
  split
  · have hu := unmoved_settleAll
      ((s.applyGraph (s.container.graph.report a state value)).freeRemovals a)
      ((s.applyGraph (s.container.graph.report a state value)).container.removals[a]?.getD [])
      (.ok .done)
    refine hs.congr ?_ ?_
    · rw [closeIfEmpty_controllers, hu.controllers]
      rfl
    · rw [closeIfEmpty_graph, hu.container]
      rfl
  · exact hs

theorem Orderly.supplying_process {r : Request} {rest : List Request} (h : s.Orderly)
    (hi : s.container.inbox = r :: rest) :
    Supplying { s with container := { s.container with inbox := rest } }
      (System.process { s with container := { s.container with inbox := rest } } r) := by
  cases r with
  | report a state value =>
      refine supplying_acceptReport ?_ ?_ a state value
      · exact h.consistent.ordered.coherent
      · exact h.endsRemoved
  | install plan ticket => exact supplying_install _ plan ticket
  | remove name ticket => exact (h.taken hi rfl).toGrounded.supplying_remove name ticket
  | close ticket => exact (h.taken hi rfl).toGrounded.supplying_close ticket
  | has name ticket | state name ticket | text ticket => exact .of_unmoved (unmoved_settle _ _ _)

theorem Orderly.supplying_receive {r : Request} {rest : List Request} (h : s.Orderly)
    (hs : s.container.isServing = true) (hi : s.container.inbox = r :: rest) :
    s.Supplying s.receive := by
  have hp := (h.supplying_process hi).of_base (s := s) rfl rfl
  have hcancelled := (h.process hs hi).uncancelled
  unfold System.receive
  rw [hi]
  dsimp only
  split
  · have hu := unmoved_shutDown hcancelled
    have hgraph := congrArg Container.graph hu.container
    exact hp.congr hu.controllers hgraph
  · exact hp

/-- Only who lacked its dependencies is given them in a step. -/
theorem Orderly.supplying {x : Stimulus} (h : s.Orderly) (hs : Step s x s') : s.Supplying s' := by
  have hsame : s'.controllers = s.controllers → s'.container.graph = s.container.graph →
      s.Supplying s' := fun hc hg => (Withholds.of_same hc hg).supplying
  cases hs with
  | calm hcalm => exact (withholds_calm hcalm).supplying
  | opened origin hst hu hw => exact hsame hu.controllers (by rw [hu.container])
  | asked origin o requests w ha =>
      have hsent := sends_sendAll { s with world := w } requests
      exact hsame hsent.controllers (by rw [hsent.container, sent_graph])
  | received request rest hserving hi => exact h.supplying_receive hserving hi
  | finished hst hq =>
      have hu := unmoved_finish s
      exact hsame hu.controllers (by rw [hu.container])
  | took id c hc hcan => exact (withholds_turn hc (turned_take (h.attended hc) hcan _)).supplying
  | resumed id c callback answer hc hwake =>
      exact (withholds_turn hc (turned_resume (h.attended hc) hwake)).supplying
  | joined id t outcome hj => exact (withholds_joins hj).supplying

end System

end ServiceHost
