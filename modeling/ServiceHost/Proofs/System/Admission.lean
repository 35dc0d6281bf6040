import ServiceHost.Proofs.System.Cells
import ServiceHost.Proofs.System.Custody

/-! # Which requests a container takes up

A request is looked at when it is sent, and again when the container comes to it, unless the
container is closed before. Each time it is the stage at that moment which decides, and a request
that is not taken up leaves everything as it was. -/

namespace ServiceHost

/-- A container takes up a request at a stage. -/
def Request.AdmittedAt (r : Request) (stage : Stage) : Prop :=
  match r with
  | .install .. | .close _ => stage = .opened
  | .remove .. | .has .. | .state .. | .text _ => stage = .opened ∨ stage = .closing
  | .report .. => True

instance (r : Request) (stage : Stage) : Decidable (r.AdmittedAt stage) := by
  cases r <;> unfold Request.AdmittedAt <;> infer_instance

/-- Why a container that comes to a request does not take it up, if it does not. -/
def Container.objection? (c : Container) (r : Request) : Option Error :=
  if r.AdmittedAt c.stage then
    match r with
    | .install plan _ =>
      if c.graph.contains plan.name then some (.namingConflict plan.name) else none
    | _ => none
  else some (.invalidState r.operation c.stage)

theorem Container.admitted_of_objection? {c : Container} {r : Request}
    (h : c.objection? r = none) : r.AdmittedAt c.stage := by
  by_contra hno
  exact absurd ((if_neg hno).symm.trans h) (by simp)

/-- How a request from outside is called when it is refused. -/
def Operation.wording : Operation → String
  | .start => "start service container"
  | .install _ | .composite _ | .compositeAlone _ => "install service"
  | .remove _ => "remove service"
  | .has _ | .state _ => "query service"
  | .text | .textOfRest => "dump service graph"
  | .close | .closeInTime => "close service container"

namespace System

variable {s s' : System} {x : Stimulus} {k : Ticket} {r : Request} {e : Error}

/-- A container goes from one stage to the next, and why. One that is closed after everyone was told
to stop ends at once. -/
inductive Advances (s : System) (x : Stimulus) (s' : System) : Prop
  | stays (h : s'.container.stage = s.container.stage)
    (hended : s.container.ended = true → s'.container.ended = true)
  | opens (origin : Origin) (hx : x = .request origin .start) (h : s.container.stage = .fresh)
    (h' : s'.container.stage = .opened)
  | begins {k : Ticket} {rest : List Request} (hx : x = .move .receive)
    (hi : s.container.inbox = .close k :: rest) (h : s.container.stage = .opened)
    (h' : s'.container.stage = .closing)
  | empties (hx : x = .move .receive) (h : s.container.stage = .closing ∨
      s.container.stage = .opened ∧ ∃ k rest, s.container.inbox = .close k :: rest)
    (h' : s'.container.stage = .closed) (hempty : s'.container.graph.isEmpty = true)
    (hended : s.cancelled = true → s'.container.ended = true)
  | forced (hx : x = .move .force) (hc : s.cancelled = true) (h : s.container.isServing = true)
    (h' : s'.container.stage = .closed) (hended : s'.container.ended = true)

/-- A request is turned down, and that is all that happens. -/
structure Refuses (s : System) (k : Ticket) (e : Error) (s' : System) : Prop where
  told : s'.world.status k = some (some (.error e))
  others : ∀ {j : Ticket}, j ≠ k → s'.world.status j = s.world.status j
  unmoved : s.Unmoved s'
  spares : s.Spares s'

/-- A request is turned down since the container is closed, which changes nothing but its stage and
what it holds. -/
structure TurnsDown (s : System) (k : Ticket) (s' : System) : Prop where
  closed : s'.container.stage = .closed
  told : s'.world.status k = some (some (.error refusal))
  graph : s'.container.graph = s.container.graph
  controllers : s'.controllers = s.controllers
  spares : s.Spares s'

/-- A request is taken up: it is answered, or whoever is to answer it holds its promise. -/
def TakesUp (s s' : System) : Request → Prop
  | .install plan k => s'.container.graph.contains plan.name = true ∧
      ∃ messages, s'.controllers[s.controllers.length]? =
        some ((Controller.launch plan k).told messages)
  | .remove name k =>
      if s.container.graph.contains name then k ∈ s'.container.held (some name)
      else s'.world.status k = some (some (.ok .done))
  | .has name k => s'.world.status k = some (some (.ok (.flag (s.container.graph.contains name))))
  | .state name k => s'.world.status k = some (some (.ok (.state (s.container.graph.state? name))))
  | .text k => s'.world.status k = some (some (.ok (.text s.container.graph.text)))
  | .close k => (s'.container.stage = .closing ∨ s'.container.stage = .closed) ∧
      (k ∈ s'.container.closing ∨
        s.cancelled = true ∧ s'.world.status k = some (some (.error .abandoned)))
  | .report .. => True

/-- What becomes of a request before the container. -/
inductive Fate (s : System) (x : Stimulus) (k : Ticket) (s' : System) : Prop
  | waits (h : k ∈ s'.container.tickets)
  | refused {r : Request} {rest : List Request} {e : Error} (hx : x = .move .receive)
    (hi : s.container.inbox = r :: rest) (hk : r.ticket? = some k)
    (he : s.container.objection? r = some e)
    (h : Refuses { s with container := { s.container with inbox := rest } } k e s')
  | taken {r : Request} {rest : List Request} (hx : x = .move .receive)
    (hi : s.container.inbox = r :: rest) (hk : r.ticket? = some k)
    (hno : s.container.objection? r = none) (h : s.TakesUp s' r)
  /-- The container is closed by the request before it. -/
  | left {r : Request} {rest : List Request} (hx : x = .move .receive)
    (hi : s.container.inbox = r :: rest) (hk : r.ticket? ≠ some k)
    (h : TurnsDown (process { s with container := { s.container with inbox := rest } } r) k s')
  /-- The container is closed by force. -/
  | forced (hx : x = .move .force) (h : s.TurnsDown k s')

/-- A promise made goes before the container with its request, or the request is turned down at
once. -/
def Lodged (s : System) (operation : String) (k : Ticket) (s' : System) : Prop :=
  if s.container.isServing then
    k ∈ s'.container.tickets ∧ s'.world.status k = some none
  else s'.world.status k = some (some (.error (.invalidState operation s.container.stage)))

/-- What a request from outside does at once. -/
structure Lodges (s : System) (o : Operation) (s' : System) : Prop where
  made : s.world.pledges.length < s'.world.pledges.length
  lodged : ∀ {k : Ticket}, s.world.status k = none → s'.world.status k ≠ none →
    s.Lodged o.wording k s'
  others : ∀ {k : Ticket}, s.world.status k ≠ none → s'.world.status k = s.world.status k
  container : ∃ requests, s'.container = s.container.sent requests
  controllers : s'.controllers = s.controllers
  tasks : s'.tasks = s.tasks
  cells : s.world.cells.Grows s'.world.cells
  journal : s'.world.journal = s.world.journal

/-! ## Requests that are sent -/

theorem status_send_unserved (hs : s.container.isServing = false) (hr : r.ticket? = some k)
    (hk : s.world.status k = some none) : (s.send r).world.status k =
      some (some (.error (.invalidState r.operation s.container.stage))) := by
  have hrefuse : s.send r = s.refuse r (.invalidState r.operation s.container.stage) := by
    simp [send, Container.refusal?, hs]
  rw [hrefuse]
  exact status_refuse hr hk _

/-- A container that takes no requests turns down each of those sent to it. -/
theorem status_sendAll_unserved {requests : List Request} (hs : s.container.isServing = false)
    (hmem : k ∈ requests.filterMap Request.ticket?) (hk : s.world.status k = some none) :
    ∃ r ∈ requests, (s.sendAll requests).world.status k =
      some (some (.error (.invalidState r.operation s.container.stage))) := by
  induction requests generalizing s with
  | nil => simp at hmem
  | cons r requests ih =>
      by_cases hr : r.ticket? = some k
      · exact ⟨r, List.mem_cons_self, (settles_sendAll (s.send r) requests).settled
          (status_send_unserved hs hr hk)⟩
      · have hsame : (s.send r).container = s.container :=
          (sends_send s r).container.trans (sent_of_not_serving hs [r])
        have hkept : (s.send r).world.status k = s.world.status k :=
          (settles_sendAll s [r]).kept fun h => hr (by simpa using h.2)
        have hmem' : k ∈ requests.filterMap Request.ticket? := by
          rw [List.filterMap_cons] at hmem
          split at hmem
          · exact hmem
          · next j hj => exact (List.mem_cons.mp hmem).resolve_left fun h => hr (h ▸ hj)
        obtain ⟨r', hr', hstatus⟩ := ih (by rw [hsame]; exact hs) hmem' (hkept.trans hk)
        exact ⟨r', List.mem_cons_of_mem r hr', by rw [← hsame]; exact hstatus⟩

/-- What is sent with new promises goes before the container, or is turned down at once. -/
theorem lodged_sendAll {w : World} {requests : List Request} (ha : Asked s.world requests w)
    (hk : k ∈ requests.filterMap Request.ticket?) :
    ∃ r ∈ requests, s.Lodged r.operation k ({ s with world := w }.sendAll requests) := by
  have hopen := (ha.of_mem hk).2
  by_cases hs : s.container.isServing = true
  · obtain ⟨r, hr, _⟩ := List.mem_filterMap.mp hk
    have hsent := sends_sendAll { s with world := w } requests
    refine ⟨r, hr, ?_⟩
    rw [Lodged, if_pos hs, hsent.container, sent_tickets]
    refine ⟨List.mem_append_right _ ?_, ?_⟩
    · exact (if_pos hs).symm ▸ hk
    · exact ((settles_sendAll { s with world := w } requests).kept fun hlost =>
        absurd (hs.symm.trans hlost.1) (by simp)).trans hopen
  · have hno : s.container.isServing = false := by simpa using hs
    obtain ⟨r, hr, hstatus⟩ := status_sendAll_unserved (s := { s with world := w }) hno hk hopen
    exact ⟨r, hr, by rw [Lodged, if_neg hs]; exact hstatus⟩

/-! ## Requests from outside -/

/-- Whatever is made of installs is a request to install. -/
theorem operation_installComposite (origin : Origin) (c : Composite) (w : World) :
    ∀ r ∈ ((Progress.begin w).installComposite origin none c).requests,
      r.operation = "install service" := by
  have h : ∀ (l : List Service) (p : Progress),
      (∀ r ∈ p.requests, r.operation = "install service") →
      ∀ r ∈ (l.foldl (fun p d => p.install origin none d) p).requests,
        r.operation = "install service" := by
    intro l
    induction l with
    | nil => exact fun p hp => hp
    | cons d l ih =>
        refine fun p hp => ih _ fun r hr => ?_
        rcases List.mem_append.mp hr with hr | hr
        · exact hp r hr
        · exact List.mem_singleton.mp hr ▸ rfl
  intro r hr
  rcases List.mem_append.mp hr with hr | hr
  · exact h c.services (.begin w) (by simp [Progress.begin]) r hr
  · exact List.mem_singleton.mp hr ▸ rfl

theorem journal_installComposite (p : Progress) (origin : Origin) (c : Composite) :
    (p.installComposite origin none c).world.journal = p.world.journal := by
  have h : ∀ (l : List Service) (p : Progress),
      (l.foldl (fun p d => p.install origin none d) p).world.journal = p.world.journal := by
    intro l
    induction l with
    | nil => exact fun p => rfl
    | cons d l ih => exact fun p => ih _
  exact h c.services p

/-- Requests of one kind are sent from outside. -/
theorem lodges_sendAll {o : Operation} {w : World} {requests : List Request}
    (ha : Asked s.world requests w) (hne : requests ≠ [])
    (ho : ∀ r ∈ requests, r.operation = o.wording) (hcells : s.world.cells.Grows w.cells)
    (hjournal : w.journal = s.world.journal) :
    s.Lodges o ({ s with world := w }.sendAll requests) := by
  have hsent := sends_sendAll { s with world := w } requests
  have hspares := (spares_sendAll { s with world := w } requests).world
  have hsettles := settles_sendAll { s with world := w } requests
  refine ⟨?_, fun {k} hk hk' => ?_, fun {k} hk => ?_, ⟨requests, hsent.container⟩,
    hsent.controllers, hsent.tasks, hspares.cells ▸ hcells, hspares.journal.trans hjournal⟩
  · rw [hsettles.length, ha.length]
    exact Nat.lt_add_of_pos_right (List.length_pos_of_ne_nil hne)
  · rw [Ne, World.status_eq_none, hsettles.length] at hk'
    obtain ⟨r, hr, hlodged⟩ := lodged_sendAll ha
      (ha.mem_tickets.mpr ⟨World.status_eq_none.mp hk, hk'⟩)
    exact ho r hr ▸ hlodged
  · rw [Ne, World.status_eq_none] at hk
    refine (hsettles.kept fun hlost => ?_).trans (ha.status_of_lt (Nat.lt_of_not_le hk))
    exact hk (ha.of_mem hlost.2).1

theorem lodges_operate (s : System) (origin : Origin) {o : Operation} (ho : o ≠ .start) :
    s.Lodges o (s.operate origin o).2 := by
  have hask : ∀ (subject : Option Subject) (request : Ticket → Request),
      (∀ t, (request t).ticket? = some t) → (∀ t, (request t).operation = o.wording) →
      s.Lodges o (s.ask subject request).2 := fun subject request h hop =>
    lodges_sendAll (.pledge s.world subject request h) (by simp)
      (fun r hr => List.mem_singleton.mp hr ▸ hop _) (.refl _) rfl
  cases o with
  | start => exact absurd rfl ho
  | install d =>
      obtain ⟨asked, hr, ha⟩ := Progress.asks_install (.begin s.world) origin none d
      have hp := Progress.prepares_install (.begin s.world) origin none d
      exact lodges_sendAll (hr ▸ ha) (by simp [Progress.install, Progress.ask])
        (fun r hr => by simp [Progress.install, Progress.ask, Progress.begin] at hr; exact hr ▸ rfl)
        hp.cells rfl
  | composite c =>
      have h := Progress.goesOn_installComposite (.begin s.world) origin none c
      obtain ⟨asked, hr, ha⟩ := h.asks
      have hp := h.prepares
      exact lodges_sendAll (hr ▸ ha)
        (by simp [Progress.installComposite, Progress.installAlone, Progress.ask])
        (operation_installComposite origin c s.world) hp.cells (journal_installComposite _ _ _)
  | compositeAlone c =>
      have hp := (Progress.Acts.composite (.begin s.world) origin none c).prepares
      obtain ⟨asked, hr, ha⟩ := (Progress.Acts.composite (.begin s.world) origin none c).asks
      exact lodges_sendAll (hr ▸ ha) (by simp [Progress.installAlone, Progress.ask])
        (fun r hr => List.mem_singleton.mp hr ▸ rfl) hp.cells rfl
  | remove name => exact hask _ _ (fun _ => rfl) fun _ => rfl
  | has name => exact hask _ _ (fun _ => rfl) fun _ => rfl
  | state name => exact hask _ _ (fun _ => rfl) fun _ => rfl
  | text | textOfRest => exact hask _ _ (fun _ => rfl) fun _ => rfl
  | close | closeInTime => exact hask _ _ (fun _ => rfl) fun _ => rfl

/-! ## Requests of controllers -/

/-- What is asked for in a turn goes before the container, or is turned down at once. -/
theorem lodged_applyTurn {id : Nat} {c : Controller} {t : Turn} (hc : s.controllers[id]? = some c)
    (ht : t.Pays s.world c) (hknown : ∀ k, c.install = some k → k < s.world.pledges.length)
    (hk : s.world.status k = none) (hk' : (s.applyTurn id t).world.status k ≠ none) :
    ∃ operation, s.Lodged operation k (s.applyTurn id t) := by
  obtain ⟨w', hsettles, ha⟩ := ht.asks
  have happly := settles_applyTurn s id t
  rw [World.status_eq_none] at hk
  rw [Ne, World.status_eq_none, happly.length] at hk'
  have hmem := ha.mem_tickets.mpr ⟨hsettles.length ▸ hk, hk'⟩
  have hopen := (ha.of_mem hmem).2
  have hnew : t.controller.install ≠ some k := fun h =>
    Nat.not_lt.mpr hk (hknown k (ht.install h))
  by_cases hs : s.container.isServing = true
  · refine ⟨"", ?_⟩
    rw [Lodged, if_pos hs, (applies_applyTurn (List.getElem?_eq_some_iff.mp hc).1).container,
      sent_tickets, if_pos hs, List.filterMap_append]
    refine ⟨List.mem_append_right _ (List.mem_append_left _ hmem), ?_⟩
    refine (happly.kept ?_).trans hopen
    rintro (hlost | hinstall)
    · exact absurd (hs.symm.trans hlost.1) (by simp)
    · exact hnew hinstall
  · have hno : s.container.isServing = false := by simpa using hs
    obtain ⟨before, after, hworld, hcontainer, -, hpledges, -, happly⟩ := applyTurn_stages s id t
    obtain ⟨r, -, hstatus⟩ := status_sendAll_unserved (s := before) (hcontainer ▸ hno) hmem
      (hworld ▸ hopen)
    have hafter := (World.status_congr hpledges).trans hstatus
    have hreported := (settles_sendAll after t.reported.toList).settled hafter
    refine ⟨r.operation, ?_⟩
    rw [Lodged, if_neg hs, happly, ← hcontainer]
    split
    · exact (settles_endController _ id t.controller).settled hreported
    · exact hreported

theorem Happens.lodged (hs : Happens s x s') (h : s.Accounted)
    (hk : s.world.status k = none) (hk' : s'.world.status k ≠ none) :
    ∃ operation, s.Lodged operation k s' := by
  have hstill : s'.world.pledges.length ≠ s.world.pledges.length := by
    intro hlen
    rw [Ne, World.status_eq_none, hlen] at hk'
    exact hk' (World.status_eq_none.mp hk)
  have hknown : ∀ {i : Nat} {c : Controller}, s.controllers[i]? = some c →
      ∀ k, c.install = some k → k < s.world.pledges.length := by
    intro i c hc k hk
    refine lt_of_status (h.mem_hands.mp (List.mem_append_right _ ?_))
    exact List.mem_filterMap.mpr ⟨c, List.mem_of_getElem? hc, hk⟩
  cases hs with
  | step hs =>
      cases hs with
      | calm hcalm => exact absurd (congrArg List.length hcalm.pledges) hstill
      | opened origin hst hu hw => exact absurd (congrArg List.length hw) hstill
      | asked origin o requests w ha =>
          rw [Ne, World.status_eq_none,
            (settles_sendAll { s with world := w } requests).length] at hk'
          obtain ⟨r, -, hlodged⟩ := lodged_sendAll ha
            (ha.mem_tickets.mpr ⟨World.status_eq_none.mp hk, hk'⟩)
          exact ⟨_, hlodged⟩
      | received request rest hserving hi =>
          obtain ⟨gone, -, hc⟩ := closes_receive hi
          exact absurd hc.length hstill
      | finished hst hq =>
          obtain ⟨gone, -, hc⟩ := closes_finish s
          exact absurd hc.length hstill
      | took id c hc hcan =>
          exact lodged_applyTurn hc (Turn.pays_take hcan id s.world) (hknown hc) hk hk'
      | resumed id c callback answer hc hwake =>
          exact lodged_applyTurn hc (Turn.pays_resume hwake id) (hknown hc) hk hk'
      | joined id t outcome hj => exact absurd (congrArg List.length hj.pledges) hstill
  | obeyed hs =>
      cases hs with
      | told => exact absurd (congrArg (·.pledges.length) (cancel_world s)) hstill
      | forced hx hs =>
          obtain ⟨gone, -, hc⟩ := closes_shutDown s
          exact absurd hc.length hstill
      | ended id c hx hc hlive hfree =>
          exact absurd (closes_endController (s.log .warn c.cancelText) hc).2.length hstill
      | calledOff id t hx ht hw => exact absurd (congrArg List.length (callOffTask_pledges s id)) hstill

/-! ## Requests the container comes to -/

theorem refuses_settle (hk : s.world.status k = some none) :
    s.Refuses k e (s.settle k (.error e)) where
  told := status_settle_self hk _
  others hj := (settles_settle s k _).kept hj
  unmoved := unmoved_settle s k _
  spares := spares_settle s k _

theorem refuses_refuse (hr : r.ticket? = some k) (hk : s.world.status k = some none) :
    s.Refuses k e (s.refuse r e) where
  told := status_refuse hr hk e
  others hj := (settles_refuse s r e).kept fun h => hj (Option.some.inj (h.symm.trans hr))
  unmoved := unmoved_refuse s r e
  spares := spares_refuse s r e

/-- A container that takes requests turns down those it objects to. -/
theorem refuses_process (hs : s.container.isServing = true) (hr : r.ticket? = some k)
    (hk : s.world.status k = some none) (he : s.container.objection? r = some e) :
    s.Refuses k e (s.process r) := by
  rw [isServing_iff] at hs
  unfold Container.objection? at he
  cases r with
  | install plan ticket =>
      show s.Refuses k e (s.install plan ticket)
      unfold System.install
      split at he
      · next hadmitted =>
          have hopened : s.container.stage = .opened := hadmitted
          dsimp only at he
          split at he
          · next hcontains =>
              obtain rfl := Option.some.inj he
              rw [if_neg (by simp [hopened]), if_pos hcontains]
              exact refuses_refuse hr hk
          · contradiction
      · next hadmitted =>
          have hopened : s.container.stage ≠ .opened := hadmitted
          obtain rfl := Option.some.inj he
          rw [if_pos hopened]
          exact refuses_refuse hr hk
  | close ticket =>
      obtain rfl := Option.some.inj hr
      split at he
      · contradiction
      · next hadmitted =>
          have hopened : s.container.stage ≠ .opened := hadmitted
          obtain rfl := Option.some.inj he
          show s.Refuses ticket _ (s.close ticket)
          rw [close_eq, if_pos hopened]
          exact refuses_settle hk
  | remove | has | state | text => simp [Request.AdmittedAt, hs] at he
  | report => simp [Request.AdmittedAt] at he

theorem contains_register (g : Graph) (r : Registration) (i : Inbox) :
    (g.register r i).1.contains r.name = true := by
  rw [Graph.register_fst, Graph.contains, Std.ExtTreeMap.contains_eq_isSome_getElem?,
    Graph.resolve_nodes, if_pos rfl, Graph.enter_nodes, if_pos rfl]
  rfl

/-- A container takes up the requests it does not object to. -/
theorem takesUp_process (hr : r.ticket? = some k)
    (hk : s.world.status k = some none) (hno : s.container.objection? r = none) :
    s.TakesUp (s.process r) r := by
  have hadmitted := Container.admitted_of_objection? hno
  cases r with
  | install plan ticket =>
      have hopened : s.container.stage = .opened := hadmitted
      have hfree : s.container.graph.contains plan.name = false := by
        simpa [Container.objection?, hadmitted] using hno
      have hinstall := operates_install s plan ticket
      show s.TakesUp (s.install plan ticket) _
      rw [System.install, if_neg (by simp [hopened]), if_neg (by simp [hfree])]
      refine ⟨?_, Graph.Trial.messagesTo s.controllers.length
        (s.container.graph.register plan.registration s.controllers.length).2, ?_⟩
      · rw [hinstall.container]
        exact contains_register s.container.graph plan.registration _
      · rw [hinstall.controllers, List.getElem?_append_right (Nat.le_refl _), Nat.sub_self]
        rfl
  | remove name ticket =>
      obtain rfl := Option.some.inj hr
      show ite _ _ _
      rw [show s.process (.remove name ticket) = s.remove name ticket from rfl, System.remove]
      by_cases hcontains : s.container.graph.contains name = true
      · rw [if_pos hcontains, if_pos hcontains]
        show ticket ∈ Container.held { (s.applyGraph _).container with removals := _ } (some name)
        rw [held_insert, if_pos rfl]
        exact List.mem_append_right _ List.mem_cons_self
      · rw [if_neg hcontains, if_neg hcontains]
        exact status_settle_self hk _
  | has name ticket | state name ticket | text ticket =>
      obtain rfl := Option.some.inj hr
      exact status_settle_self hk _
  | close ticket =>
      obtain rfl := Option.some.inj hr
      have hopened : s.container.stage = .opened := hadmitted
      obtain ⟨stage, graph, hcontainer⟩ := process_container s (.close ticket)
      refine ⟨?_, .inl ?_⟩
      · rcases stage_process s (.close ticket) with h | ⟨-, -, h⟩ | ⟨h, -⟩
        · have hclose : (s.process (.close ticket)).container.stage ≠ .opened := by
            show (s.close ticket).container.stage ≠ .opened
            rw [close_eq, if_neg (by simp [hopened])]
            obtain ⟨graph, hgraph⟩ :=
              requestRemovals_container (s.beginClosing ticket) s.container.graph.roots
            obtain ⟨stage, hstage, rfl | rfl⟩ := closeIfEmpty_container
              ((s.beginClosing ticket).requestRemovals s.container.graph.roots)
            · rw [hstage, hgraph]
              simp [beginClosing]
            · simp [hstage]
          exact absurd (h.trans hopened) hclose
        · exact .inl h
        · exact .inr h
      · rw [hcontainer]
        show ticket ∈ closingAfter s.container (.close ticket)
        rw [closingAfter, if_pos hopened]
        exact List.mem_append_right _ List.mem_cons_self
  | report => trivial

/-- A container that is closed turns down whatever is left before it. -/
theorem turnsDown_shutDown (hk : s.world.status k = some none) (hmem : k ∈ s.container.tickets) :
    s.TurnsDown k s.shutDown where
  closed := (shutDown_closed s).1
  told := by
    have hdown : s.turnDown.world.status k = some (some (.error refusal)) :=
      status_refuseAll refusal hmem hk
    rw [shutDown_eq_ite]
    split
    · exact (closes_endForced s.turnDown).2.fixed hdown
    · exact hdown
  graph := shutDown_graph s
  controllers := shutDown_controllers s
  spares := spares_shutDown s

theorem status_endForced (hk : s.world.status k = some none) (hmem : k ∈ s.container.closing) :
    s.endForced.world.status k = some (some (.error .abandoned)) :=
  status_settleAll (s := { s.log .warn "⚠️  Service container was closed forcefully" with
    container := { s.container with ended := true, removals := ∅, closing := [] } })
    (List.mem_append_right _ hmem) hk _

/-- Only a request to close is taken up by a container that is closed by it. -/
theorem takesUp_shutDown (h : Accounted (s.process r)) (hs : s.container.isServing = true)
    (hr : r.ticket? = some k) (hclosed : (s.process r).container.stage = .closed)
    (htaken : s.TakesUp (s.process r) r) : s.TakesUp (s.process r).shutDown r := by
  have hclose : ∃ k, r = .close k := by
    rcases stage_process s r with hst | ⟨hclose, -⟩ | ⟨-, -, ⟨⟨_, _, rfl⟩, -⟩ | ⟨hclose, -⟩⟩
    · simp [Container.isServing, ← hst, hclosed] at hs
    · exact hclose
    · cases hr
    · exact hclose
  obtain ⟨j, rfl⟩ := hclose
  refine ⟨.inr (shutDown_closed _).1, ?_⟩
  have hcancelled := (spares_process s (.close j)).cancelled
  generalize s.process (.close j) = s₁ at h htaken hcancelled
  rcases htaken.2 with hmem | ⟨hc, hstatus⟩
  · by_cases hc : s₁.cancelled = true
    · refine .inr ⟨hcancelled.symm.trans hc, ?_⟩
      have hdown : s₁.turnDown.Accounted := h.lets ⟨[], _, closes_turnDown s₁⟩
      have hheld : j ∈ s₁.turnDown.container.closing := by
        rw [(unmoved_turnDown s₁).container]
        exact hmem
      rw [shutDown_eq_ite, if_pos ((unmoved_turnDown s₁).cancelled.trans hc)]
      refine status_endForced (hdown.mem_hands.mp ?_) hheld
      simp only [hands, List.mem_append]
      exact .inl (.inr hheld)
    · rw [shutDown_container, if_neg hc]
      exact .inl hmem
  · obtain ⟨gone, -, hcloses⟩ := closes_shutDown s₁
    exact .inr ⟨hc, hcloses.fixed hstatus⟩

/-- The container comes to the oldest request. -/
theorem fate_receive {rest : List Request} (h : s.Accounted) (hs : s.container.isServing = true)
    (hi : s.container.inbox = r :: rest) (hk : k ∈ s.container.tickets) :
    s.Fate (.move .receive) k s.receive := by
  let s₁ : System := { s with container := { s.container with inbox := rest } }
  have hopen : s.world.status k = some none :=
    h.mem_hands.mp (by simp only [hands, List.mem_append]; exact .inl (.inl (.inl hk)))
  have hreceive : s.receive =
      if (s₁.process r).container.stage = .closed then (s₁.process r).shutDown
      else s₁.process r := receive_eq hi
  obtain ⟨gone, hdeals, hserves⟩ := deals_taken hi
  have haccounted : (s₁.process r).Accounted := Deals.once h hdeals hserves.closes
  by_cases hr : r.ticket? = some k
  · cases he : s.container.objection? r with
    | some e =>
        have hrefused := refuses_process (s := s₁) hs hr hopen he
        have hserving : (s₁.process r).container.stage ≠ .closed := by
          rw [hrefused.unmoved.container]
          intro hclosed
          rw [isServing_iff] at hs
          rcases hs with hst | hst <;> exact absurd (hst.symm.trans hclosed) (by simp)
        rw [hreceive, if_neg hserving]
        exact .refused rfl hi hr he hrefused
    | none =>
        refine .taken rfl hi hr he ?_
        have htaken := takesUp_process (s := s₁) hr hopen he
        rw [hreceive]
        split
        · next hclosed => exact takesUp_shutDown haccounted hs hr hclosed htaken
        · exact htaken
  · have hrest : k ∈ rest.filterMap Request.ticket? := by
      rw [Container.tickets, hi, List.filterMap_cons] at hk
      split at hk
      · exact hk
      · next j hj => exact (List.mem_cons.mp hk).resolve_left fun h => hr (h ▸ hj)
    have hleft : k ∈ (s₁.process r).container.tickets := by
      rw [Container.tickets, process_inbox]
      exact hrest
    rw [hreceive]
    split
    · refine .left rfl hi hr (turnsDown_shutDown ?_ hleft)
      exact haccounted.mem_hands.mp
        (by simp only [hands, List.mem_append]; exact .inl (.inl (.inl hleft)))
    · exact .waits hleft

/-! ## Steps -/

theorem Happens.fate (hs : Happens s x s') (h : s.Accounted) (hk : k ∈ s.container.tickets) :
    s.Fate x k s' := by
  have hsame : s'.container.inbox = s.container.inbox → s.Fate x k s' := fun hi =>
    .waits (Container.tickets_congr hi ▸ hk)
  have hsent : ∀ {requests : List Request}, s'.container = s.container.sent requests →
      s.Fate x k s' := by
    intro requests hc
    refine .waits ?_
    rw [hc, sent_tickets]
    exact List.mem_append_left _ hk
  cases hs with
  | step hs =>
      cases hs with
      | calm hcalm => exact hsame (congrArg Container.inbox hcalm.container)
      | opened origin hst hu => exact hsame (hu.container ▸ rfl)
      | asked origin o requests w ha =>
          exact hsent (sends_sendAll { s with world := w } requests).container
      | received request rest hserving hi => exact fate_receive h hserving hi hk
      | finished hst hq => exact hsame ((unmoved_finish s).container ▸ rfl)
      | took id c hc hcan =>
          exact hsent (applies_applyTurn (List.getElem?_eq_some_iff.mp hc).1).container
      | resumed id c callback answer hc hwake =>
          exact hsent (applies_applyTurn (List.getElem?_eq_some_iff.mp hc).1).container
      | joined id t outcome hj => exact hsame (congrArg Container.inbox hj.container)
  | obeyed hs =>
      cases hs with
      | told => exact hsame (congrArg Container.inbox (unmoved_cancel s).container)
      | forced hx hs =>
          exact .forced rfl (turnsDown_shutDown (h.mem_hands.mp
            (by simp only [hands, List.mem_append]; exact .inl (.inl (.inl hk)))) hk)
      | ended id c hx hc hlive hfree =>
          exact hsame (congrArg Container.inbox (endController_container _ id c))
      | calledOff id t hx ht hw =>
          exact hsame (congrArg Container.inbox (callOffTask_container s id))

theorem shutDown_ended (s : System) (h : s.cancelled = true ∨ s.container.ended = true) :
    s.shutDown.container.ended = true := by
  rw [shutDown_container]
  split
  · rfl
  · next hno => exact h.resolve_left hno

theorem advances_receive {rest : List Request} (hi : s.container.inbox = r :: rest) :
    s.Advances (.move .receive) s.receive := by
  let s₁ : System := { s with container := { s.container with inbox := rest } }
  have hreceive : s.receive =
      if (s₁.process r).container.stage = .closed then (s₁.process r).shutDown
      else s₁.process r := receive_eq hi
  have hlive : (s₁.process r).container.ended = s.container.ended := process_ended s₁ r
  have hcancelled : (s₁.process r).cancelled = s.cancelled := (spares_process s₁ r).cancelled
  rw [hreceive]
  rcases stage_process s₁ r with h | ⟨⟨k, rfl⟩, hst, h⟩ | ⟨h, hempty, hcause⟩
  · split
    · next hclosed =>
        refine .stays ((shutDown_closed _).1.trans (hclosed.symm.trans h)) fun he => ?_
        exact shutDown_ended _ (.inr (hlive.trans he))
    · exact .stays h fun he => hlive.trans he
  · rw [if_neg (by simp [h])]
    exact .begins rfl hi hst h
  · rw [if_pos h]
    refine .empties rfl ?_ (shutDown_closed _).1 (by rw [shutDown_graph]; exact hempty)
      fun hc => shutDown_ended _ (.inl (hcancelled.trans hc))
    exact hcause.imp And.right fun ⟨⟨k, hk⟩, hst⟩ => ⟨hst, k, rest, hk ▸ hi⟩

theorem Happens.advances (hs : Happens s x s') : s.Advances x s' := by
  have hsame : s'.container = s.container → s.Advances x s' := fun hc =>
    .stays (by rw [hc]) (by rw [hc]; exact id)
  have hsent : ∀ {requests : List Request}, s'.container = s.container.sent requests →
      s.Advances x s' := fun hc => by
    refine .stays (hc ▸ sent_stage _ _) fun he => ?_
    rw [hc, Container.sent]
    split <;> exact he
  cases hs with
  | step hs =>
      cases hs with
      | calm hcalm => exact hsame hcalm.container
      | opened origin hst hu => exact .opens origin rfl hst (congrArg Container.stage hu.container)
      | asked origin o requests w ha =>
          exact hsent (sends_sendAll { s with world := w } requests).container
      | received request rest hserving hi => exact advances_receive hi
      | finished hst hq =>
          have hc := (unmoved_finish s).container
          exact .stays (by rw [hc]) fun _ => by rw [hc]
      | took id c hc hcan =>
          exact hsent (applies_applyTurn (List.getElem?_eq_some_iff.mp hc).1).container
      | resumed id c callback answer hc hwake =>
          exact hsent (applies_applyTurn (List.getElem?_eq_some_iff.mp hc).1).container
      | joined id t outcome hj => exact hsame hj.container
  | obeyed hs =>
      cases hs with
      | told => exact hsame (unmoved_cancel s).container
      | forced hx hs =>
          exact .forced rfl hx hs (shutDown_closed s).1 (shutDown_ended s (.inl hx))
      | ended id c hx hc hlive hfree => exact hsame (endController_container _ id c)
      | calledOff id t hx ht hw => exact hsame (callOffTask_container s id)

/-- A container that is closed stays so, and so does one that has ended. -/
theorem Happens.stays_closed (hs : Happens s x s') (h : s.container.stage = .closed) :
    s'.container.stage = .closed ∧ (s.container.ended = true → s'.container.ended = true) := by
  cases hs.advances with
  | stays hst he => exact ⟨hst.trans h, he⟩
  | opens origin hx hst => simp [h] at hst
  | begins hx hi hst => simp [h] at hst
  | empties hx hst => simp [h] at hst
  | forced hx hc hserving => simp [Container.isServing, h] at hserving

theorem Happens.not_fresh (hs : Happens s x s') (h : s.container.stage ≠ .fresh) :
    s'.container.stage ≠ .fresh := by
  cases hs.advances with
  | stays hst => rwa [hst]
  | opens origin hx hst h' => simp [h']
  | begins hx hi hst h' => simp [h']
  | empties hx hst h' => simp [h']
  | forced hx hc hserving h' => simp [h']

/-! ## Whole runs -/

/-- Requests are taken up and turned down by the stage the container is at. Only a start that comes
too late is told another stage at times: while closing the container is called open until it has
ended, or its task was given up after a forced close. -/
structure Judges (s : System) : Prop where
  advances : ∀ x : Stimulus, s.Advances x (s.apply x)
  opens : ∀ origin : Origin, s.container.stage = .fresh →
    (s.operate origin .start).1 = some (.ok ()) ∧
      (s.operate origin .start).2.container = { s.container with stage := .opened } ∧
      (s.operate origin .start).2.controllers = s.controllers
  late : ∀ origin : Origin, s.container.stage ≠ .fresh → s.operate origin .start =
    (some (.error (.invalidState "start service container"
      (if s.givenUp || s.container.ended then .closed else .opened))), s)
  lodges : ∀ (origin : Origin) (o : Operation), o ≠ .start → s.Lodges o (s.operate origin o).2
  lodged : ∀ (x : Stimulus) {k : Ticket}, s.world.status k = none →
    (s.apply x).world.status k ≠ none → ∃ operation, s.Lodged operation k (s.apply x)
  fate : ∀ (x : Stimulus) {k : Ticket}, k ∈ s.container.tickets → s.Fate x k (s.apply x)

/-- Whatever happens, every request is judged by the stage the container is at. -/
theorem judges_run (happened : List Stimulus) : (initial.run happened).Judges where
  advances x := (happens_apply _ x).advances
  opens origin hst := by simp [operate, start, runtime, hst, log]
  late origin hst := by simp only [operate, start_of_ne_fresh hst]
  lodges origin o ho := lodges_operate _ origin ho
  lodged x _ hk hk' := (happens_apply _ x).lodged (accounted_run happened) hk hk'
  fate x _ hk := (happens_apply _ x).fate (accounted_run happened) hk

/-- A container with one service is asked to close. -/
def oneCloses : List Stimulus :=
  [.request (.request 0) .start, .request (.request 1) (.install (plainService "one" [])),
    .move .receive, .request (.request 2) .close, .move .receive]

/-- A start that comes too late is not always told the stage the container is at. -/
theorem not_told_of_late : ¬∀ (happened : List Stimulus) (origin : Origin),
    (initial.run happened).container.stage ≠ .fresh →
    ((initial.run happened).operate origin .start).1 = some (.error (.invalidState
      "start service container" (initial.run happened).container.stage)) := by
  intro h
  have hstage : (initial.run oneCloses).container.stage = .closing := by decide +kernel
  have hended : (initial.run oneCloses).container.ended = false := by decide +kernel
  have hheld : (initial.run oneCloses).givenUp = false := by decide +kernel
  have htold := h oneCloses (.request 3) (by simp [hstage])
  have hlate := start_of_ne_fresh (s := initial.run oneCloses) (by simp [hstage])
  simp [operate, hlate, hheld, hended, hstage] at htold

end System

end ServiceHost
