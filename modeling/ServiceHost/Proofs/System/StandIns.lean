import ServiceHost.Proofs.Graph.Roots
import ServiceHost.Proofs.System.Admission

/-! # The graph after everyone was told to stop

A controller may end where it is, and its service stays installed. The graph cannot tell that from a
controller that makes no turn any more. So what holds of the graph as long as controllers go on,
holds whatever happens: dependencies stay in order, and the roots cover the graph. -/

namespace ServiceHost

open ServiceHost.Graph (Trial TrialStep)

/-! ## Controllers that hear what was sent -/

namespace System

variable {l l' l'' : List Controller} {sent sent' : List Delivery}

theorem exists_hears (l : List Controller) (sent : List Delivery) : ∃ l', Hears l sent l' :=
  ⟨l.mapIdx fun j c => c.told (Trial.messagesTo j sent), fun _ => List.getElem?_mapIdx⟩

theorem Hears.unique (h : Hears l sent l') (h' : Hears l sent l'') : l' = l'' :=
  List.ext_getElem? fun j => (h j).trans (h' j).symm

theorem Hears.rest (h : Hears l sent l') (h' : Hears l (sent ++ sent') l'') :
    Hears l' sent' l'' := by
  obtain ⟨l₁, h₁⟩ := exists_hears l' sent'
  exact (h.trans h₁).unique h' ▸ h₁

end System

open ServiceHost.System (Hears exists_hears mirrors_trial)

namespace EndsRemoved

variable {l l' : List Controller}

theorem hears {sent : List Delivery} (h : EndsRemoved l) (hh : Hears l sent l') :
    EndsRemoved l' := by
  intro j c' hc' he
  rw [hh] at hc'
  obtain ⟨c, hc, rfl⟩ := Option.map_eq_some_iff.mp hc'
  rw [c.told_ended] at he
  rw [c.told_state]
  exact h hc he

theorem append (h : EndsRemoved l) (hlive : ∀ c ∈ l', c.ended = false) : EndsRemoved (l ++ l') := by
  intro j c hc he
  rw [List.getElem?_append] at hc
  split at hc
  · exact h hc he
  · simp [hlive c (List.mem_of_getElem? hc)] at he

theorem set {id : Nat} {c : Controller} (h : EndsRemoved l)
    (hc : c.ended = true → c.state = .removed) : EndsRemoved (l.set id c) := by
  intro j b hb he
  rw [List.getElem?_set] at hb
  split at hb
  · split at hb
    · obtain rfl := Option.some.inj hb
      exact hc he
    · contradiction
  · exact h hb he

theorem noticed (h : EndsRemoved l) (hn : ∀ i : Nat, Option.Rel Controller.Noticed l[i]? l'[i]?) :
    EndsRemoved l' := by
  intro i c' hc' he
  have hrel := hn i
  rw [hc'] at hrel
  generalize hc : l[i]? = o at hrel
  cases hrel with
  | @some c _ hn =>
      rcases hn with rfl | rfl
      · exact h hc he
      · exact h (c := c) hc he

end EndsRemoved

/-! ## Requests -/

namespace Consistent

variable {s : System} {l l' : List Controller}

/-- Services are asked to stop, one after the other. -/
theorem requestRemovals {t : Trial} {inbox : List Request} {names : List Name}
    (h : Consistent t.graph inbox l) (hended : EndsRemoved l)
    (hh : Hears l (t.trace (names.map .remove)) l') :
    Consistent ((names.map TrialStep.remove).foldl Trial.next t).graph inbox l' := by
  induction names generalizing t l with
  | nil => exact (Hears.refl l).unique hh ▸ h
  | cons a names ih =>
      obtain ⟨l₁, h₁⟩ := exists_hears l (t.sends (.remove a))
      exact ih (t := t.next (.remove a)) (h.requestRemoval hended a h₁) (hended.hears h₁)
        (h₁.rest hh)

/-- A service is registered, unless its name is taken. -/
theorem install {inbox : List Request} {plan : Plan} {ticket : Ticket}
    (h : Consistent s.container.graph inbox l) (hended : EndsRemoved l)
    (hlength : l.length = s.controllers.length)
    (hh : Hears (l ++ s.launches (.install plan ticket))
      (s.trial.trace (Request.steps s.container (.install plan ticket))) l') :
    Consistent ((Request.steps s.container (.install plan ticket)).foldl Trial.next s.trial).graph
      inbox l' := by
  by_cases hst : s.container.stage = .opened
  · simp only [Request.steps, System.launches, hst, if_true, true_and, Trial.trace,
      List.append_nil, List.foldl_cons, List.foldl_nil] at hh ⊢
    by_cases hname : s.trial.graph.contains plan.name = true
    · have hrefused : ¬s.container.graph.contains plan.name = false := by
        rw [Bool.not_eq_false]
        exact hname
      rw [if_neg hrefused, List.append_nil, Trial.sends_register_of_taken hname] at hh
      rw [Trial.next_register_of_taken hname]
      exact (Hears.refl l).unique hh ▸ h
    · have hfree : s.container.graph.contains plan.name = false := Bool.eq_false_iff.mpr hname
      have hnone : s.container.graph.nodes[plan.name]? = none := Graph.not_contains_iff.mp hname
      have hinboxes : s.trial.inboxes.length = l.length :=
        (mirrors_trial s).inboxes.trans hlength.symm
      rw [if_pos hfree, Trial.sends_register_of_free hname, hinboxes] at hh
      rw [Trial.next_register_of_free hname, hinboxes]
      exact h.register hnone hended hh
  · simp only [Request.steps, System.launches, hst, if_false, false_and, Trial.trace,
      List.append_nil, List.foldl_nil] at hh ⊢
    exact (Hears.refl l).unique hh ▸ h

/-- What a request does to the graph, and makes controllers hear, keeps them in agreement. -/
theorem carryOut {r : Request} {rest : List Request}
    (h : Consistent s.container.graph (r :: rest) l) (hended : EndsRemoved l)
    (hlength : l.length = s.controllers.length)
    (hh : Hears (l ++ s.launches r) (s.trial.trace (r.steps s.container)) l') :
    Consistent ((r.steps s.container).foldl Trial.next s.trial).graph rest l' := by
  have htaken : r.ticket?.isSome = true → Consistent s.container.graph rest l := fun hr =>
    h.congr fun m => (reportsOf_cons_of_ticket hr rest).symm
  cases r with
  | has name ticket | state name ticket | text ticket =>
      simp only [System.launches, List.append_nil] at hh
      exact (Hears.refl l).unique hh ▸ htaken rfl
  | install plan ticket => exact (htaken rfl).install hended hlength hh
  | remove name ticket =>
      simp only [System.launches, List.append_nil] at hh
      have hone : Hears l (s.trial.trace ([name].map .remove)) l' := hh
      exact (htaken rfl).requestRemovals (t := s.trial) hended hone
  | close ticket =>
      simp only [System.launches, List.append_nil, Request.steps] at hh ⊢
      by_cases hst : s.container.stage = .opened
      · rw [if_pos hst] at hh ⊢
        exact (htaken rfl).requestRemovals (t := s.trial) hended hh
      · rw [if_neg hst] at hh ⊢
        exact (Hears.refl l).unique hh ▸ htaken rfl
  | report a reached value =>
      simp only [System.launches, List.append_nil] at hh
      simp only [Request.steps, Trial.trace, List.append_nil] at hh
      exact h.report hended hh

end Consistent

/-- Requests that are to be answered report nothing. -/
theorem reportsOf_sent {container : Container} {requests : List Request}
    (h : ∀ r ∈ requests, r.ticket?.isSome = true) (m : Name) :
    reportsOf m (container.sent requests).inbox = reportsOf m container.inbox := by
  unfold Container.sent
  split
  · rw [reportsOf_append, reportsOf_requests h, List.append_nil]
  · rfl

/-! ## Turns -/

section Turns

variable {c : Controller} {w : World}

theorem upholds_take (h : c.canTake = true) (id : Nat) (w : World) (task : Nat) :
    Upholds c task (c.take id w) := by
  have hlive := Controller.ended_of_canTake h
  rcases Controller.take_cases h id w with
    ⟨message, rest, hi, hno, _, hs⟩ | ⟨e, rest, next, hi, hc, hm, ht⟩
  · exact hs.upholds hlive hi hno task
  · exact ht.upholds hlive hi hc hm task

theorem Controller.Regular.upholds_resume (hr : c.Regular) {callback : Callback}
    {answer : Option (Awaited × Except Error Answer)}
    (h : c.wakeUp? w = some (callback, answer)) (id task : Nat) :
    Upholds c task (c.resume id w) := by
  have hc := Controller.callback_of_wakeUp? h
  exact (Controller.resume_resumed h id).upholds (hr.live hc) (hr.callback callback hc) hc task

end Turns

/-! ## Stand-ins -/

namespace System

variable {s s' : System} {x : Stimulus} {l l' : List Controller}

/-- Controllers in agreement with the graph, of whom those that go on are controllers of the system.
In the place of a controller that ended where it was stands one that only hears what is sent. -/
structure StandIns (s : System) (l : List Controller) : Prop where
  consistent : Consistent s.container.graph s.container.inbox l
  removed : EndsRemoved l
  length : l.length = s.controllers.length
  live : ∀ {i : Nat} {c : Controller}, s.controllers[i]? = some c → c.ended = false →
    l[i]? = some c

/-- Controllers, with stand-ins in the place of those that have ended. -/
def withStandIns (l controllers : List Controller) : List Controller :=
  List.zipWith (fun b c => if c.ended then b else c) l controllers

theorem getElem?_withStandIns {controllers : List Controller} {i : Nat} {b c : Controller}
    (hb : l[i]? = some b) (hc : controllers[i]? = some c) :
    (withStandIns l controllers)[i]? = some (if c.ended then b else c) := by
  rw [withStandIns, List.getElem?_zipWith, hb, hc]

namespace StandIns

/-- Only the graph, what is reported, and the controllers that go on count. -/
theorem congr (h : s.StandIns l) (hg : s'.container.graph = s.container.graph)
    (hr : ∀ m, reportsOf m s'.container.inbox = reportsOf m s.container.inbox)
    (hlength : s'.controllers.length = s.controllers.length)
    (hc : ∀ {i : Nat} {c : Controller}, s'.controllers[i]? = some c → c.ended = false →
      s.controllers[i]? = some c) : s'.StandIns l :=
  ⟨hg ▸ h.consistent.congr hr, h.removed, h.length.trans hlength.symm,
    fun hi he => h.live (hc hi he) he⟩

theorem of_same (h : s.StandIns l) (hg : s'.container.graph = s.container.graph)
    (hi : s'.container.inbox = s.container.inbox) (hc : s'.controllers = s.controllers) :
    s'.StandIns l :=
  h.congr hg (fun _ => by rw [hi]) (by rw [hc]) fun hi _ => hc ▸ hi

/-- Everyone hears the same, stand-ins included. -/
theorem hears (h : s.StandIns l) {new : List Controller} {sent : List Delivery}
    (hnew : ∀ c ∈ new, c.ended = false) (hh : Hears (s.controllers ++ new) sent s'.controllers)
    (hh' : Hears (l ++ new) sent l')
    (hc : Consistent s'.container.graph s'.container.inbox l') : s'.StandIns l' := by
  refine ⟨hc, EndsRemoved.hears (EndsRemoved.append h.removed hnew) hh', ?_, fun {i c'} hi he => ?_⟩
  · rw [length_of_map hh', length_of_map hh, List.length_append, List.length_append, h.length]
  · rw [hh] at hi
    obtain ⟨c, hc, rfl⟩ := Option.map_eq_some_iff.mp hi
    rw [c.told_ended] at he
    have hsame : (l ++ new)[i]? = some c := by
      rw [List.getElem?_append] at hc ⊢
      rw [h.length]
      split
      · next hlt => exact h.live (by rwa [if_pos hlt] at hc) he
      · next hlt => rwa [if_neg hlt] at hc
    rw [hh', hsame, Option.map_some]

/-- A timer goes off for a controller that goes on, and for no stand-in. -/
theorem noticed (h : s.StandIns l) (hs : s.Calm s') (i : Nat) :
    Option.Rel Controller.Noticed l[i]? (withStandIns l s'.controllers)[i]? := by
  have hrel := hs.controllers i
  cases hb : l[i]? with
  | none =>
      have hc : s.controllers[i]? = none := by
        rw [List.getElem?_eq_none_iff] at hb ⊢
        exact h.length ▸ hb
      rw [withStandIns, List.getElem?_zipWith, hb]
      exact .none
  | some b =>
      obtain ⟨c, hc⟩ : ∃ c, s.controllers[i]? = some c := by
        have hlt : i < s.controllers.length := h.length ▸ (List.getElem?_eq_some_iff.mp hb).1
        exact ⟨_, List.getElem?_eq_getElem hlt⟩
      rw [hc] at hrel
      generalize hc' : s'.controllers[i]? = o at hrel
      cases hrel with
      | @some _ c' hn =>
          rw [getElem?_withStandIns hb hc']
          refine .some ?_
          split
          · exact .inl rfl
          · next he =>
              have hlive : c.ended = false := by
                rcases hn with rfl | rfl <;> exact Bool.eq_false_iff.mpr he
              obtain rfl := Option.some.inj (hb.symm.trans (h.live hc hlive))
              exact hn

theorem calm (h : s.StandIns l) (hs : s.Calm s') :
    s'.StandIns (withStandIns l s'.controllers) := by
  have hlength : s'.controllers.length = l.length :=
    (length_of_rel hs.controllers).trans h.length.symm
  refine ⟨?_, EndsRemoved.noticed h.removed (h.noticed hs), ?_, fun {i c} hc he => ?_⟩
  · rw [hs.container]
    exact h.consistent.noticed (h.noticed hs)
  · rw [withStandIns, List.length_zipWith, hlength, Nat.min_self]
  · have hlt : i < l.length := hlength ▸ (List.getElem?_eq_some_iff.mp hc).1
    rw [getElem?_withStandIns (List.getElem?_eq_getElem hlt) hc, if_neg (by simp [he])]

/-- Whoever makes a turn stands for itself. -/
theorem turn (h : s.StandIns l)
    (hunserved : s.container.isServing = false → ∀ m : Name, s.container.graph.nodes[m]? = none)
    {id : Nat} {c : Controller} {t : Turn} (hc : s.controllers[id]? = some c)
    (hlive : c.ended = false) (ht : Upholds c s.tasks.length t) :
    (s.applyTurn id t).StandIns (l.set id (t.final s.tasks.length)) := by
  have ha := applies_applyTurn (t := t) (List.getElem?_eq_some_iff.mp hc).1
  refine ⟨?_, EndsRemoved.set h.removed ht.ended, ?_, fun {i b} hb he => ?_⟩
  · rw [ha.container]
    exact h.consistent.upheld hunserved (h.live hc hlive) ht
  · rw [ha.controllers, List.length_set, List.length_set, h.length]
  · rw [ha.controllers, List.getElem?_set] at hb
    rw [List.getElem?_set, h.length]
    split
    · next hi => rwa [if_pos hi] at hb
    · next hi =>
        rw [if_neg hi] at hb
        exact h.live hb he

/-- The container takes a request. -/
theorem receive (h : s.StandIns l) {r : Request} {rest : List Request}
    (hi : s.container.inbox = r :: rest) : s.receive.container.graph.Ordered ∧
      (s.receive.container.stage ≠ .closed → ∃ l', s.receive.StandIns l') := by
  obtain ⟨hm, hh⟩ := (mirrors_trial s).receive hi
  obtain ⟨l', hh'⟩ := exists_hears (l ++ s.launches r) (s.trial.trace (r.steps s.container))
  have hbefore := h.consistent
  rw [hi] at hbefore
  have hafter := hbefore.carryOut h.removed h.length hh'
  rw [hm.graph] at hafter
  refine ⟨hafter.ordered, fun hopen => ⟨l', h.hears ?_ hh hh' ?_⟩⟩
  -- a controller just launched goes on, so nobody needs to stand in for it
  · intro c hc
    unfold launches at hc
    split at hc
    · split at hc
      · rw [List.mem_singleton.mp hc]
        rfl
      · contradiction
    · contradiction
  · have hinbox : s.receive.container.inbox = rest := by
      rw [receive_eq hi] at hopen ⊢
      dsimp only at hopen ⊢
      split at hopen
      · exact absurd (shutDown_closed _).1 hopen
      · next hno =>
          rw [if_neg hno]
          exact process_inbox _ r
    rw [hinbox]
    exact hafter

end StandIns

/-- What every graph keeps to, whatever happens: it is in order, and unless the container is closed
there are controllers that go on with it. -/
structure Supported (s : System) : Prop where
  ordered : s.container.graph.Ordered
  vacant : s.container.stage = .fresh → ∀ m : Name, s.container.graph.nodes[m]? = none
  standIns : s.container.stage ≠ .closed → ∃ l, s.StandIns l

namespace Supported

theorem unserved (h : s.Supported) (hopen : s.container.stage ≠ .closed)
    (hno : s.container.isServing = false) (m : Name) : s.container.graph.nodes[m]? = none := by
  refine h.vacant ?_ m
  cases hst : s.container.stage <;> simp_all [Container.isServing]

/-- No request is taken. -/
theorem still (h : s.Supported) (hs : Happens s x s')
    (hg : s'.container.graph = s.container.graph)
    (hl : ∀ {l : List Controller}, s.StandIns l → s.container.stage ≠ .closed →
      s'.container.stage ≠ .closed → ∃ l', s'.StandIns l') : s'.Supported := by
  refine ⟨hg ▸ h.ordered, fun hfresh m => ?_, fun hopen => ?_⟩
  · rw [hg]
    exact h.vacant (not_not.mp fun hno => hs.not_fresh hno hfresh) m
  · have hbefore : s.container.stage ≠ .closed := fun hno => hopen (hs.stays_closed hno).1
    obtain ⟨l, hstand⟩ := h.standIns hbefore
    exact hl hstand hbefore hopen

theorem step (h : s.Supported) (hu : s.WellFormed) (hs : Step s x s') : s'.Supported := by
  -- the step itself is still wanted: it never takes a stage back
  cases id hs with
  | calm hcalm =>
      exact h.still (.step hs) (by rw [hcalm.container]) fun hl _ _ => ⟨_, hl.calm hcalm⟩
  | opened origin hst hunmoved =>
      have hc := hunmoved.container
      exact h.still (.step hs) (by rw [hc]) fun hl _ _ =>
        ⟨_, hl.of_same (by rw [hc]) (by rw [hc]) hunmoved.controllers⟩
  | asked origin o requests w ha =>
      have hsent := sends_sendAll { s with world := w } requests
      have hgraph := hsent.container.symm ▸ sent_graph s.container requests
      refine h.still (.step hs) hgraph fun hl _ _ => ⟨_, hl.congr hgraph ?_ ?_ ?_⟩
      · intro m
        rw [hsent.container]
        exact reportsOf_sent ha.ticket_isSome m
      · rw [hsent.controllers]
      · intro i c hi _
        rwa [hsent.controllers] at hi
  | received request rest hserving hi =>
      have hopen : s.container.stage ≠ .closed := by
        rintro hst
        simp [Container.isServing, hst] at hserving
      obtain ⟨l, hl⟩ := h.standIns hopen
      obtain ⟨hordered, hnext⟩ := hl.receive hi
      refine ⟨hordered, fun hfresh => ?_, hnext⟩
      exact absurd hfresh (Happens.not_fresh (.step hs) fun hno => by
        simp [Container.isServing, hno] at hserving)
  | finished hst hq =>
      have hc := (unmoved_finish s).container
      exact h.still (.step hs) (by rw [hc]) fun _ hno _ => absurd hst hno
  | took id c hc hcan =>
      refine h.still (.step hs) (hs.still (by simp)).1 fun hl hopen _ => ?_
      exact ⟨_, hl.turn (h.unserved hopen) hc (Controller.ended_of_canTake hcan)
        (upholds_take hcan id _ _)⟩
  | resumed id c callback answer hc hwake =>
      have hr := hu.controllers hc
      refine h.still (.step hs) (hs.still (by simp)).1 fun hl hopen _ => ?_
      exact ⟨_, hl.turn (h.unserved hopen) hc (hr.live (Controller.callback_of_wakeUp? hwake))
        (hr.upholds_resume hwake id _)⟩
  | joined id t outcome hj =>
      refine h.still (.step hs) (by rw [hj.container]) fun {l} hl _ _ => ?_
      obtain ⟨l', hh⟩ := exists_hears l [⟨t.owner, .lifecycle (t.event outcome)⟩]
      have hheard : Hears (s.controllers ++ []) [⟨t.owner, .lifecycle (t.event outcome)⟩]
          s'.controllers := by
        rw [List.append_nil]
        exact hj.controllers
      rw [← List.append_nil l] at hh
      refine ⟨l', hl.hears (by simp) hheard hh ?_⟩
      rw [List.append_nil] at hh
      rw [hj.container]
      exact hl.consistent.told_own hl.removed (event_own t outcome).own hh

theorem happens (h : s.Supported) (hu : s.WellFormed) (hs : Happens s x s') : s'.Supported := by
  cases id hs with
  | step hstep => exact h.step hu hstep
  | obeyed hobeyed =>
      cases hobeyed with
      | told =>
          have hunmoved := unmoved_cancel s
          have hc := hunmoved.container
          exact h.still hs (by rw [hc]) fun hl _ _ =>
            ⟨_, hl.of_same (by rw [hc]) (by rw [hc]) hunmoved.controllers⟩
      | forced hx hserving =>
          exact h.still hs (shutDown_graph s) fun _ _ hopen => absurd (shutDown_closed s).1 hopen
      | ended id c hx hc hlive hfree =>
          have hcontainer := endController_container (s.log .warn c.cancelText) id c
          refine h.still hs (by rw [hcontainer]; rfl) fun hl _ _ =>
            ⟨_, hl.congr (by rw [hcontainer]; rfl) ?_ ?_ ?_⟩
          · intro m
            rw [hcontainer]
            rfl
          · rw [endController_controllers, List.length_set]
            rfl
          · intro i b hi he
            rw [endController_controllers, List.getElem?_set] at hi
            split at hi
            · split at hi
              · obtain rfl := Option.some.inj hi
                simp [Controller.cut] at he
              · contradiction
            · exact hi
      | calledOff id t hx ht hw =>
          have hcontainer := callOffTask_container s id
          exact h.still hs (by rw [hcontainer]) fun hl _ _ =>
            ⟨_, hl.of_same (by rw [hcontainer]) (by rw [hcontainer]) (callOffTask_controllers s id)⟩

end Supported

theorem supported_initial : initial.Supported := by
  refine ⟨Graph.ordered_empty, fun _ m => ?_, fun _ => ⟨[], consistent_empty, ?_, rfl, ?_⟩⟩
  · simp [initial, Container.fresh, Graph.empty]
  · intro i c hc
    simp at hc
  · intro i c hc
    simp [initial] at hc

theorem supported_run (happened : List Stimulus) : (initial.run happened).Supported :=
  (kept_run (P := fun s => s.WellFormed ∧ s.Supported)
    (fun h hs => ⟨h.1.happens hs, h.2.happens h.1 hs⟩) ⟨wellFormed_initial, supported_initial⟩
    happened).2

/-- The roots cover the graph after whatever happened, also once everyone was told to stop. -/
theorem rootsCover_run (happened : List Stimulus) :
    (initial.run happened).container.graph.RootsCover :=
  (supported_run happened).ordered.toAnchored.rootsCover

end System

end ServiceHost
