import ServiceHost.Proofs.Graph.Counts
import ServiceHost.Proofs.System.Spending

/-! # Every step is paid for

The price of everything a system can still bring about drops with each step somebody makes, as long
as there are no more services than prices are made for. -/

namespace ServiceHost

open ServiceHost.Graph (Outcome)

variable {τ : Tariff}

/-- The price of what a task still does, and its watcher. -/
def Task.toll (τ : Tariff) (t : Task) : Nat :=
  (match t.state with
    | .queued => 4 * τ.unit
    | .asleep | .awake => τ.unit
    | .ended _ | .calledOff => 0) +
  (if t.watched then 2 * τ.unit else 0) + if t.overdue then τ.unit else 0

/-- The price of the end of the container: it closes, and then waits for everyone to be done. -/
def Stage.toll (τ : Tariff) (ended : Bool) : Stage → Nat
  | .fresh => 0
  | .opened | .closing => 2 * τ.unit
  | .closed => if ended then 0 else τ.unit

/-- The price of the requests before the container, and of its own end. -/
def Container.toll (τ : Tariff) (c : Container) : Nat :=
  c.stage.toll τ c.ended + requestsToll τ c.inbox

/-- There are no more services than prices are made for, if anything but services costs at all. -/
def Graph.Within (τ : Tariff) (g : Graph) : Prop := τ.unit * g.nodes.size ≤ τ.unit * τ.crowd

namespace Graph.Within

variable {g g' : Graph}

/-- No operation on the graph sends more than three messages for each service, and two. -/
theorem fan (h : g.Within τ) {k : Nat} (hk : k ≤ 3 * g.nodes.size + 2) : τ.unit * k ≤ τ.fan := by
  have hle := Nat.mul_le_mul_left τ.unit hk
  unfold Tariff.fan
  unfold Within at h
  rw [Nat.mul_add, Nat.mul_left_comm] at hle ⊢
  omega

theorem of_contains (h : g.Within τ) (hc : ∀ a, g'.contains a = g.contains a) : g'.Within τ :=
  Nat.le_trans (Nat.mul_le_mul_left _ (size_le_of_contains fun a ha => hc a ▸ ha)) h

end Graph.Within

namespace System

/-- The price of everything a system can still bring about. -/
def toll (τ : Tariff) (s : System) : Nat :=
  (s.controllers.map (Controller.toll τ)).sum + s.container.toll τ +
    (s.tasks.map (Task.toll τ)).sum + 2 * τ.unit * s.world.timers.length

variable {s s' : System}

/-! ## Parts of a step -/

theorem toll_of_unmoved (h : s.Unmoved s') (hw : s'.world.timers = s.world.timers) :
    s'.toll τ = s.toll τ := by
  unfold toll
  rw [h.controllers, h.container, h.tasks, hw]

theorem sum_map_set {α : Type} {l : List α} {i : Nat} {a : α} (h : l[i]? = some a) (b : α)
    (f : α → Nat) : ((l.set i b).map f).sum + f a = (l.map f).sum + f b := by
  induction l generalizing i with
  | nil => simp at h
  | cons x l ih =>
      cases i with
      | zero =>
          obtain rfl : x = a := by simpa using h
          simp only [List.set_cons_zero, List.map_cons, List.sum_cons]
          omega
      | succ i =>
          have hrest := ih (i := i) (by simpa using h)
          simp only [List.set_cons_succ, List.map_cons, List.sum_cons]
          omega

theorem sum_map_modify_le {α : Type} {f : α → Nat} {g : α → α} {k : Nat}
    (h : ∀ a, f (g a) ≤ f a + k) (l : List α) (i : Nat) :
    ((l.modify i g).map f).sum ≤ (l.map f).sum + k := by
  induction l generalizing i with
  | nil => simp
  | cons x l ih =>
      cases i with
      | zero =>
          have hx := h x
          simp only [List.modify_zero_cons, List.map_cons, List.sum_cons]
          omega
      | succ i =>
          have hrest := ih i
          simp only [List.modify_succ_cons, List.map_cons, List.sum_cons]
          omega

theorem toll_setController {id : Nat} {c : Controller} (hc : s.controllers[id]? = some c)
    (c' : Controller) : (s.setController id c').toll τ + c.toll τ = s.toll τ + c'.toll τ := by
  have hsum := sum_map_set hc c' (Controller.toll τ)
  simp only [toll, setController]
  omega

theorem toll_setTask {id : Nat} {t : Task} (ht : s.tasks[id]? = some t) (t' : Task) :
    (s.setTask id t').toll τ + t.toll τ = s.toll τ + t'.toll τ := by
  have hsum := sum_map_set ht t' (Task.toll τ)
  simp only [toll, setTask]
  omega

theorem toll_wake (s : System) (a : Actor) : (s.wake a).toll τ = s.toll τ :=
  toll_of_unmoved (unmoved_wake s a) (by rw [wake_world])

theorem toll_wakeAll (s : System) (l : List Actor) : (s.wakeAll l).toll τ = s.toll τ :=
  toll_of_unmoved ⟨wakeAll_container s l, wakeAll_controllers s l, wakeAll_tasks s l,
    wakeAll_cancelled s l⟩ (by rw [wakeAll_world])

theorem toll_log (s : System) (level : Level) (message : String) :
    (s.log level message).toll τ = s.toll τ := rfl

theorem toll_settleAll (s : System) (tickets : List Ticket) (o : Except Error Answer) :
    (s.settleAll tickets o).toll τ = s.toll τ :=
  toll_of_unmoved (unmoved_settleAll s tickets o) (spares_settleAll s tickets o).world.timers

theorem toll_settle (s : System) (k : Ticket) (o : Except Error Answer) :
    (s.settle k o).toll τ = s.toll τ :=
  toll_settleAll s [k] o

theorem toll_refuse (s : System) (r : Request) (e : Error) :
    (s.refuse r e).toll τ = s.toll τ :=
  toll_of_unmoved (unmoved_refuse s r e) (spares_refuse s r e).world.timers

theorem toll_noticeEnd (s : System) : s.noticeEnd.toll τ = s.toll τ :=
  toll_of_unmoved (unmoved_noticeEnd s) (by rw [noticeEnd_world])

theorem toll_send (s : System) (r : Request) : (s.send r).toll τ ≤ s.toll τ + r.toll τ := by
  unfold send
  split
  · rw [toll_refuse]
    exact Nat.le_add_right _ _
  · rw [toll_wake]
    simp only [toll, Container.toll, requestsToll_append, requestsToll_singleton]
    omega

theorem toll_sendAll (s : System) (requests : List Request) :
    (s.sendAll requests).toll τ ≤ s.toll τ + requestsToll τ requests := by
  unfold sendAll
  induction requests generalizing s with
  | nil => exact Nat.le_refl _
  | cons r requests ih =>
      have hone := toll_send (τ := τ) s r
      have hrest := ih (s.send r)
      simp only [List.foldl_cons, requestsToll, List.map_cons, List.sum_cons] at hrest ⊢
      omega

theorem toll_deliver (s : System) (d : Delivery) : (s.deliver d).toll τ ≤ s.toll τ + τ.unit := by
  unfold deliver
  split
  · exact Nat.le_add_right _ _
  · next c hc =>
    split
    · exact Nat.le_add_right _ _
    · next hlive =>
      have hset := toll_setController (τ := τ) hc { c with inbox := c.inbox ++ [d.message] }
      simp only [Controller.toll, if_neg hlive, List.length_append, List.length_singleton,
        Nat.mul_add] at hset
      dsimp only
      split
      · rw [toll_wake]
        omega
      · omega

theorem toll_deliverAll (s : System) (sent : List Delivery) :
    (s.deliverAll sent).toll τ ≤ s.toll τ + τ.unit * sent.length := by
  unfold deliverAll
  induction sent generalizing s with
  | nil => exact Nat.le_refl _
  | cons d sent ih =>
      have hone := toll_deliver (τ := τ) s d
      have hrest := ih (s.deliver d)
      simp only [List.foldl_cons, List.length_cons, Nat.mul_succ]
      omega

theorem toll_applyGraph (s : System) (outcome : Outcome) :
    (s.applyGraph outcome).toll τ ≤ s.toll τ + τ.unit * outcome.2.length :=
  toll_deliverAll { s with container := { s.container with graph := outcome.1 } } outcome.2

theorem applyGraph_graph (s : System) (outcome : Outcome) :
    (s.applyGraph outcome).container.graph = outcome.1 := by
  rw [(operates_applyGraph s outcome).container]

/-! ## Requests -/

theorem toll_operation {outcome : Outcome} (h : s.container.graph.Within τ)
    (hk : outcome.2.length ≤ 3 * s.container.graph.nodes.size + 2) :
    (s.applyGraph outcome).toll τ ≤ s.toll τ + τ.fan :=
  Nat.le_trans (toll_applyGraph s outcome) (Nat.add_le_add_left (h.fan hk) _)

theorem toll_removal (h : s.container.graph.Within τ) (a : Name) :
    (s.applyGraph (s.container.graph.requestRemoval a)).toll τ ≤ s.toll τ + τ.fan :=
  toll_operation h (Nat.le_trans (Graph.length_requestRemoval_le _ a) (by omega))

theorem toll_requestRemovals (h : s.container.graph.Within τ) (names : List Name) :
    (s.requestRemovals names).toll τ ≤ s.toll τ + names.length * τ.fan := by
  unfold requestRemovals
  induction names generalizing s with
  | nil => simp
  | cons a names ih =>
      have hone := toll_removal h a
      have hwithin : (s.applyGraph
          (s.container.graph.requestRemoval a)).container.graph.Within τ := by
        rw [applyGraph_graph]
        exact h.of_contains fun x => Graph.contains_requestRemoval _ a x
      have hrest := ih hwithin
      simp only [List.foldl_cons, List.length_cons, Nat.succ_mul]
      omega

theorem toll_closeIfEmpty (s : System) : s.closeIfEmpty.toll τ ≤ s.toll τ := by
  unfold closeIfEmpty
  split
  · next h =>
    simp only [Bool.and_eq_true, decide_eq_true_eq] at h
    simp only [toll, Container.toll, h.1, Stage.toll]
    split <;> omega
  · exact Nat.le_refl _

/-- The price of a service just launched. -/
theorem toll_launch (plan : Plan) (ticket : Ticket) : (Controller.launch plan ticket).toll τ =
    1 + τ.unit + τ.life + (plan.conduct.startToll τ + plan.conduct.stopToll τ) := by
  simp only [Controller.toll, Controller.launch, State.toll, State.phase, Tariff.life,
    Option.elim_none, List.length_nil]
  simp
  omega

theorem size_references_le (p : Plan) : p.registration.references.size ≤ p.rosters.size := by
  have hsub : (Names.ofList p.rosters.keys).toList ⊆ p.rosters.keys := fun x hx => by
    simpa using hx
  have hle := ((Names.nodup_toList _).subperm hsub).length_le
  rwa [Std.ExtTreeMap.length_keys, Std.ExtTreeSet.length_toList] at hle

theorem toll_install (h : s.container.graph.Within τ) (plan : Plan) (ticket : Ticket) :
    (s.install plan ticket).toll τ + τ.unit ≤ s.toll τ + (Request.install plan ticket).toll τ := by
  have hpaid : τ.unit ≤ (Request.install plan ticket).toll τ := by
    simp only [Request.toll, Tariff.install]
    omega
  unfold install
  split
  · rw [toll_refuse]
    omega
  · split
    · rw [toll_refuse]
      omega
    · have hgraph := toll_applyGraph (τ := τ)
        (wake { s with controllers := s.controllers ++ [Controller.launch plan ticket] }
          (.controller s.controllers.length))
        (s.container.graph.register plan.registration s.controllers.length)
      have hlaunched : (wake { s with controllers := s.controllers ++
          [Controller.launch plan ticket] } (.controller s.controllers.length)).toll τ =
          s.toll τ + (Controller.launch plan ticket).toll τ := by
        rw [toll_wake]
        simp only [toll, List.map_append, List.sum_append, List.map_singleton, List.sum_singleton]
        omega
      have hsent : τ.unit * (s.container.graph.register plan.registration
          s.controllers.length).2.length ≤ τ.unit * (plan.rosters.size * τ.crowd + 1) := by
        refine Nat.le_trans (Nat.mul_le_mul_left _ (Graph.length_register_le _ _ _)) ?_
        have hsize := Nat.mul_le_mul_right s.container.graph.nodes.size (size_references_le plan)
        have hmul := Nat.mul_le_mul_left plan.rosters.size h
        rw [Nat.mul_left_comm, Nat.mul_left_comm plan.rosters.size] at hmul
        have hrefs := Nat.mul_le_mul_left τ.unit hsize
        simp only [Nat.mul_add]
        omega
      rw [hlaunched, toll_launch] at hgraph
      simp only [Request.toll, Tariff.install]
      omega

theorem toll_remove (h : s.container.graph.Within τ) (name : Name) (ticket : Ticket) :
    (s.remove name ticket).toll τ ≤ s.toll τ + τ.fan := by
  unfold remove
  split
  · exact toll_removal h name
  · rw [toll_settle]
    exact Nat.le_add_right _ _

theorem toll_acceptReport (h : s.container.graph.Within τ) (name : Name) (state : State)
    (value : Option Value) : (s.acceptReport name state value).toll τ ≤ s.toll τ + τ.fan := by
  have hgraph : (s.applyGraph (s.container.graph.report name state value)).toll τ ≤
      s.toll τ + τ.fan :=
    toll_operation h (Nat.le_trans (Graph.length_report_le _ name state value) (by omega))
  rw [acceptReport_eq]
  dsimp only
  split
  · refine Nat.le_trans (toll_closeIfEmpty _) ?_
    rw [toll_settleAll]
    exact hgraph
  · exact hgraph

theorem toll_close (h : s.container.graph.Within τ) (ticket : Ticket) :
    (s.close ticket).toll τ ≤ s.toll τ + τ.crowd * τ.fan := by
  rw [close_eq]
  split
  · rw [toll_settle]
    exact Nat.le_add_right _ _
  · next hopened =>
    rw [not_not] at hopened
    have hbegun : (s.beginClosing ticket).toll τ = s.toll τ := by
      simp [toll, Container.toll, beginClosing, Stage.toll, hopened, log, World.log]
    have hremovals := toll_requestRemovals (s := s.beginClosing ticket) (τ := τ) h
      s.container.graph.roots
    have hroots : s.container.graph.roots.length * τ.fan ≤ τ.crowd * τ.fan := by
      have hle := Nat.mul_le_mul_left τ.unit (Graph.length_roots_le s.container.graph)
      have hwithin := Nat.mul_le_mul_right (3 * τ.crowd + 2) (Nat.le_trans hle h)
      unfold Tariff.fan
      rw [Nat.mul_left_comm, Nat.mul_left_comm τ.crowd, ← Nat.mul_assoc, ← Nat.mul_assoc]
      exact hwithin
    refine Nat.le_trans (toll_closeIfEmpty _) ?_
    omega

/-- A request is paid for by its price. -/
theorem toll_process (h : s.container.graph.Within τ) (r : Request) :
    (s.process r).toll τ + τ.unit ≤ s.toll τ + r.toll τ := by
  cases r with
  | install plan ticket => exact toll_install h plan ticket
  | remove name ticket =>
      have hle := toll_remove h name ticket
      simp only [process, Request.toll]
      omega
  | has name ticket | state name ticket | text ticket =>
      simp only [process, Request.toll, toll_settle]
      exact Nat.le_refl _
  | close ticket =>
      have hle := toll_close h ticket
      simp only [process, Request.toll]
      omega
  | report name state value =>
      have hle := toll_acceptReport h name state value
      simp only [process, Request.toll, Tariff.report]
      omega

/-! ## The container -/

theorem toll_shutDown (s : System) : s.shutDown.toll τ ≤
    (s.controllers.map (Controller.toll τ)).sum +
      (if s.cancelled then 0 else Stage.toll τ s.container.ended .closed) +
      (s.tasks.map (Task.toll τ)).sum + 2 * τ.unit * s.world.timers.length := by
  have hcontrollers : s.shutDown.controllers = s.controllers := by
    rw [shutDown_eq_ite]
    split
    · rw [(unmoved_endForced _).controllers]
      exact (unmoved_turnDown s).controllers
    · exact (unmoved_turnDown s).controllers
  have hspared := spares_shutDown s
  unfold toll
  rw [hcontrollers, hspared.tasks, hspared.world.timers, shutDown_container]
  split <;> simp [Container.toll, Stage.toll]

theorem toll_shutDown_le (hst : s.container.stage = .closed) : s.shutDown.toll τ ≤ s.toll τ := by
  have hle := toll_shutDown (τ := τ) s
  have hend : (if s.cancelled then 0 else Stage.toll τ s.container.ended .closed) ≤
      s.container.toll τ := by
    simp only [Container.toll, hst]
    split <;> omega
  unfold toll at hle ⊢
  omega

/-- A container that takes requests pays for its own end. -/
theorem toll_force (hs : s.container.isServing = true) (hc : s.cancelled = true) :
    s.shutDown.toll τ + τ.unit ≤ s.toll τ := by
  have hle := toll_shutDown (τ := τ) s
  rw [if_pos hc] at hle
  have hstage : s.container.stage.toll τ s.container.ended = 2 * τ.unit := by
    rcases isServing_iff.mp hs with h | h <;> rw [h] <;> rfl
  simp only [toll, Container.toll, hstage] at hle ⊢
  omega

theorem toll_receive (h : s.container.graph.Within τ) {r : Request} {rest : List Request}
    (hi : s.container.inbox = r :: rest) : s.receive.toll τ + τ.unit ≤ s.toll τ := by
  have htaken : toll τ { s with container := { s.container with inbox := rest } } + r.toll τ =
      s.toll τ := by
    simp only [toll, Container.toll, hi, requestsToll, List.map_cons, List.sum_cons]
    omega
  have hprocess := toll_process (τ := τ)
    (s := { s with container := { s.container with inbox := rest } }) h r
  rw [receive_eq hi]
  dsimp only at htaken hprocess ⊢
  split
  · next hclosed =>
    have hle := toll_shutDown_le (τ := τ) hclosed
    omega
  · omega

theorem toll_finish (hst : s.container.stage = .closed) (he : s.container.ended = false) :
    s.finish.toll τ + τ.unit ≤ s.toll τ := by
  unfold finish
  dsimp only
  rw [toll_settleAll, toll_settleAll]
  simp only [toll, log, World.log, Container.toll, hst, he, Stage.toll]
  simp only [if_true, Bool.false_eq_true, if_false]
  omega

/-! ## Controllers -/

theorem one_le_toll (c : Controller) : 1 ≤ c.toll τ := Nat.le_add_right _ _

theorem toll_endController {id : Nat} {c₀ : Controller} (hc₀ : s.controllers[id]? = some c₀)
    (c : Controller) : (s.endController id c).toll τ + c₀.toll τ = s.toll τ + 1 := by
  have hset := toll_setController (τ := τ) hc₀
    { c with ended := true, inbox := [], install := none }
  unfold endController
  rw [toll_noticeEnd, toll_settleAll, hset]
  simp [Controller.toll]

theorem toll_endController_le (s : System) (id : Nat) (c : Controller) :
    (s.endController id c).toll τ ≤ s.toll τ := by
  cases hc₀ : s.controllers[id]? with
  | none =>
      rw [List.getElem?_eq_none_iff] at hc₀
      unfold endController
      exact Nat.le_of_eq (by rw [toll_noticeEnd, toll_settleAll, setController,
        List.set_eq_of_length_le hc₀])
  | some c₀ =>
      have hend := toll_endController (τ := τ) hc₀ c
      have hone := one_le_toll (τ := τ) c₀
      omega

theorem toll_callOff (s : System) (id : Nat) : (s.callOff id).toll τ = s.toll τ := by
  unfold callOff
  split
  · rfl
  · next t ht =>
    have hset := toll_setTask (τ := τ) ht { t with unwanted := true }
    rw [toll_wake]
    have hsame : ({ t with unwanted := true } : Task).toll τ = t.toll τ := rfl
    omega

theorem toll_launchTask (s : System) (owner : Nat) (phase : Phase) (work : Completion) :
    (s.launchTask owner phase work).toll τ ≤ s.toll τ + 8 * τ.unit := by
  unfold launchTask
  split
  · exact Nat.le_add_right _ _
  · next c hc =>
    have hset := toll_setController (τ := τ) hc { c with pending := some s.tasks.length }
    have hsame : ({ c with pending := some s.tasks.length } : Controller).toll τ = c.toll τ := rfl
    dsimp only
    rw [toll_wakeAll]
    simp only [toll, setController, List.map_append, List.sum_append, List.map_singleton,
      List.sum_singleton, World.setTimer, List.length_append, List.length_singleton,
      Nat.mul_add] at hset ⊢
    have hlaunched : (Task.launch owner c.name phase work).toll τ = 6 * τ.unit := by
      simp [Task.toll, Task.launch]
      omega
    omega

/-- A turn that comes into effect takes the place of what its controller was charged. -/
theorem toll_applyTurn {id : Nat} {c : Controller} {t : Turn} (hc : s.controllers[id]? = some c)
    (hlive : c.ended = false) :
    (s.applyTurn id t).toll τ + (Turn.begin s.world c).toll τ ≤ s.toll τ + t.toll τ := by
  -- the controller and the timers as the turn leaves them
  obtain ⟨s₁, hs₁⟩ : ∃ s₁, s₁ = ({ s with world := t.world } : System).setController id
    t.controller := ⟨_, rfl⟩
  have h₁ : s₁.toll τ + c.toll τ + 2 * τ.unit * s.world.timers.length =
      s.toll τ + t.controller.toll τ + 2 * τ.unit * t.world.timers.length := by
    have hset := toll_setController (τ := τ) (s := { s with world := t.world }) hc t.controller
    rw [← hs₁] at hset
    have hworld : toll τ { s with world := t.world } + 2 * τ.unit * s.world.timers.length =
        s.toll τ + 2 * τ.unit * t.world.timers.length := by
      simp only [toll]
      omega
    omega
  obtain ⟨s₂, hs₂⟩ : ∃ s₂, s₂ = t.calledOff.toList.foldl callOff s₁ := ⟨_, rfl⟩
  have h₂ : s₂.toll τ = s₁.toll τ := by
    rw [hs₂]
    cases t.calledOff with
    | none => rfl
    | some task => exact toll_callOff s₁ task
  obtain ⟨s₃, hs₃⟩ : ∃ s₃, s₃ = s₂.sendAll t.requests := ⟨_, rfl⟩
  have h₃ : s₃.toll τ ≤ s₂.toll τ + requestsToll τ t.requests := hs₃ ▸ toll_sendAll s₂ t.requests
  obtain ⟨s₄, hs₄⟩ : ∃ s₄, s₄ = t.deferred.toList.foldl
    (fun s left => s.launchTask id left.1 left.2) s₃ := ⟨_, rfl⟩
  have h₄ : s₄.toll τ ≤ s₃.toll τ + t.deferred.elim 0 fun _ => 8 * τ.unit := by
    rw [hs₄]
    cases t.deferred with
    | none => exact Nat.le_refl _
    | some deferred => exact toll_launchTask s₃ id deferred.1 deferred.2
  have h₅ : (s₄.sendAll t.reported.toList).toll τ ≤
      s₄.toll τ + requestsToll τ t.reported.toList := toll_sendAll s₄ _
  have hcharged : c.toll τ + 2 * τ.unit * s.world.timers.length =
      1 + τ.unit + (Turn.begin s.world c).toll τ := by
    simp only [Controller.toll, hlive, Turn.toll, Turn.begin, requestsToll, Option.toList_none,
      List.map_nil, List.sum_nil, Option.elim_none]
    simp only [Bool.false_eq_true, if_false]
    omega
  have hleft : t.controller.toll τ + 2 * τ.unit * t.world.timers.length +
      requestsToll τ t.requests + t.deferred.elim 0 (fun _ => 8 * τ.unit) +
      requestsToll τ t.reported.toList ≤ 1 + τ.unit + t.toll τ := by
    simp only [Controller.toll, Turn.toll]
    split <;> omega
  have happlied : s.applyTurn id t = if t.controller.ended then
      (s₄.sendAll t.reported.toList).endController id t.controller
      else s₄.sendAll t.reported.toList := by
    rw [hs₄, hs₃, hs₂, hs₁]
    rfl
  have hend := toll_endController_le (τ := τ) (s₄.sendAll t.reported.toList) id t.controller
  rw [happlied]
  split <;> omega

theorem toll_take {id : Nat} {c : Controller} (hc : s.controllers[id]? = some c)
    (h : c.canTake = true) : (s.applyTurn id (c.take id s.world)).toll τ + τ.unit ≤ s.toll τ := by
  have happlied := toll_applyTurn (τ := τ) (t := c.take id s.world) hc
    (Controller.ended_of_canTake h)
  have hpaid := (Controller.toll_take (τ := τ) h id s.world).2
  omega

theorem toll_resume {id : Nat} {c : Controller} {callback : Callback}
    {answer : Option (Awaited × Except Error Answer)} (hc : s.controllers[id]? = some c)
    (hlive : c.ended = false) (h : c.wakeUp? s.world = some (callback, answer)) :
    (s.applyTurn id (c.resume id s.world)).toll τ + τ.unit ≤ s.toll τ := by
  have happlied := toll_applyTurn (τ := τ) (t := c.resume id s.world) hc hlive
  have hpaid := (Controller.toll_resume (τ := τ) h id).2
  omega

theorem toll_cancelController {id : Nat} {c : Controller} (hc : s.controllers[id]? = some c)
    (hlive : c.ended = false) :
    ((s.log .warn c.cancelText).endController id c).toll τ + τ.unit ≤ s.toll τ := by
  have hend := toll_endController (τ := τ) (s := s.log .warn c.cancelText) hc c
  have hlog := toll_log (τ := τ) s .warn c.cancelText
  simp only [Controller.toll, hlive, Bool.false_eq_true, if_false] at hend
  omega

/-! ## Tasks -/

theorem toll_runTask {id : Nat} {t : Task} (ht : s.tasks[id]? = some t) (h : t.canRun = true) :
    (s.runTask id).toll τ + τ.unit ≤ s.toll τ := by
  have hcomplete : ∀ w : World, (t.complete w).2.timers = w.timers ∧
      (t.complete w).1.toll τ + τ.unit ≤ t.toll τ := by
    intro w
    unfold Task.canRun at h
    unfold Task.complete
    cases hstate : t.state with
    | queued | awake =>
        split <;> refine ⟨rfl, ?_⟩ <;> simp only [Task.toll, hstate] <;> omega
    | asleep | ended | calledOff => simp [hstate] at h
  have hrun : (t.run id s.world).1.toll τ + 2 * τ.unit * (t.run id s.world).2.timers.length +
      τ.unit ≤ t.toll τ + 2 * τ.unit * s.world.timers.length := by
    obtain ⟨htimers, hpaid⟩ := hcomplete s.world
    unfold Task.run
    split
    · next hstate =>
      split
      · split
        · simp only [Task.toll, hstate]
          omega
        · rw [htimers]
          omega
      · simp only [Task.toll, hstate, World.setTimer, List.length_append, List.length_singleton,
          Nat.mul_add]
        omega
    · rw [htimers]
      omega
    · next hqueued hawake => unfold Task.canRun at h; split at h <;> simp_all
  have hset := toll_setTask (τ := τ) (s := { s with world := (t.run id s.world).2 }) ht
    (t.run id s.world).1
  have hworld : toll τ { s with world := (t.run id s.world).2 } +
      2 * τ.unit * s.world.timers.length =
      s.toll τ + 2 * τ.unit * (t.run id s.world).2.timers.length := by
    simp only [toll]
    omega
  unfold runTask
  simp only [ht]
  split
  · rw [toll_noticeEnd, toll_wake]
    omega
  · omega

theorem toll_joinTask {id : Nat} {t : Task} {outcome : Except Failure Unit}
    (ht : s.tasks[id]? = some t) (hw : t.watched = true) (ho : t.outcome? = some outcome) :
    (s.joinTask id).toll τ + τ.unit ≤ s.toll τ := by
  have hlogged : (t.logOutcome outcome s.world).timers = s.world.timers := by
    unfold Task.logOutcome
    split <;> rfl
  have hset := toll_setTask (τ := τ) (s := { s with world := t.logOutcome outcome s.world }) ht
    { t with watched := false }
  have hworld : toll τ { s with world := t.logOutcome outcome s.world } = s.toll τ := by
    simp only [toll, hlogged]
  have hpaid : ({ t with watched := false } : Task).toll τ + 2 * τ.unit = t.toll τ := by
    simp only [Task.toll, hw, if_true, Bool.false_eq_true, if_false]
    omega
  unfold joinTask
  simp only [ht, ho]
  rw [toll_noticeEnd]
  have hdeliver := toll_deliver (τ := τ)
    (({ s with world := t.logOutcome outcome s.world } : System).setTask id
      { t with watched := false }) ⟨t.owner, .lifecycle (t.event outcome)⟩
  omega

theorem toll_callOffTask {id : Nat} {t : Task} (ht : s.tasks[id]? = some t)
    (hw : t.watched = true) : (s.callOffTask id).toll τ + τ.unit ≤ s.toll τ := by
  have hset := toll_setTask (τ := τ) ht t.callOff
  have hpaid : t.callOff.toll τ + 2 * τ.unit ≤ t.toll τ := by
    unfold Task.callOff Task.toll
    rw [hw]
    -- blocking work that has begun costs what it did
    cases hbusy : t.isBusy <;> cases hstate : t.state <;> simp [Task.isBusy, hstate] at hbusy ⊢ <;>
      omega
  unfold callOffTask
  simp only [ht]
  rw [toll_noticeEnd]
  omega

theorem toll_warnOverdue {id : Nat} {t : Task} (ht : s.tasks[id]? = some t)
    (ho : t.overdue = true) : (s.warnOverdue id).toll τ + τ.unit ≤ s.toll τ := by
  have hset := toll_setTask (τ := τ) (s := s.log .warn t.overdueText) ht
    { t with overdue := false }
  have hlog := toll_log (τ := τ) s .warn t.overdueText
  have hpaid : ({ t with overdue := false } : Task).toll τ + τ.unit = t.toll τ := by
    simp only [Task.toll, ho, if_true, Bool.false_eq_true, if_false]
    omega
  unfold warnOverdue
  simp only [ht]
  omega

/-! ## Steps -/

/-- Somebody makes a move. -/
theorem toll_move (hu : s.WellFormed) (h : s.container.graph.Within τ) {m : Move}
    (hm : s.canMove m = true) : (s.perform m).toll τ + τ.unit ≤ s.toll τ := by
  unfold perform
  rw [if_pos hm]
  cases m with
  | receive =>
      simp only [canMove, Bool.and_eq_true, Bool.not_eq_true', List.isEmpty_eq_false_iff] at hm
      obtain ⟨r, rest, hi⟩ := List.exists_cons_of_ne_nil hm.2
      exact toll_receive h hi
  | force =>
      simp only [canMove, Bool.and_eq_true] at hm
      exact toll_force hm.1 hm.2
  | finish =>
      simp only [canMove, Bool.and_eq_true, Bool.not_eq_true', decide_eq_true_eq] at hm
      exact toll_finish hm.1.1 hm.1.2
  | take id =>
      obtain ⟨c, hc, hcan⟩ := (Option.any_eq_true _ _).mp hm
      simp only [performNow, System.take, hc]
      exact toll_take hc hcan
  | resume id =>
      obtain ⟨c, hc, hcan⟩ := (Option.any_eq_true _ _).mp hm
      obtain ⟨⟨callback, answer⟩, hwake⟩ := Option.isSome_iff_exists.mp hcan
      simp only [performNow, System.resume, hc]
      exact toll_resume hc ((hu.controllers hc).live (Controller.callback_of_wakeUp? hwake)) hwake
  | cancel id =>
      obtain ⟨c, hc, hcut⟩ := (Option.any_eq_true _ _).mp (Bool.and_eq_true_iff.mp hm).2
      simp only [Bool.and_eq_true, Bool.not_eq_true'] at hcut
      simp only [performNow, cancelController, hc]
      exact toll_cancelController hc hcut.1
  | run id =>
      obtain ⟨t, ht, hcan⟩ := (Option.any_eq_true _ _).mp hm
      exact toll_runTask ht hcan
  | join id =>
      obtain ⟨t, ht, hjoin⟩ := (Option.any_eq_true _ _).mp hm
      simp only [Bool.and_eq_true, Option.isSome_iff_exists] at hjoin
      obtain ⟨hw, outcome, ho⟩ := hjoin
      exact toll_joinTask ht hw ho
  | callOff id =>
      obtain ⟨t, ht, hoff⟩ := (Option.any_eq_true _ _).mp hm
      exact toll_callOffTask ht (Bool.and_eq_true_iff.mp hoff).1
  | warn id =>
      obtain ⟨t, ht, hwarn⟩ := (Option.any_eq_true _ _).mp hm
      exact toll_warnOverdue ht (Bool.and_eq_true_iff.mp hwarn).2

theorem toll_alarm (s : System) (a : Actor) : (s.alarm a).toll τ ≤ s.toll τ + τ.unit := by
  have hcontroller : ∀ c : Controller, c.alarm.toll τ ≤ c.toll τ + 0 := by
    intro c
    have hcallback : (c.callback.map fun callback => if callback.wait = .timer then
        { callback with wait := .elapsed } else callback).elim 0 (Callback.toll τ) =
        c.callback.elim 0 (Callback.toll τ) := by
      cases c.callback with
      | none => rfl
      | some callback =>
          simp only [Option.map_some, Option.elim_some]
          split <;> rfl
    simp only [Controller.toll, Controller.alarm, hcallback]
    exact Nat.le_refl _
  have htask : ∀ t : Task, t.alarm.toll τ ≤ t.toll τ + 0 := by
    intro t
    unfold Task.alarm Task.toll
    cases t.state <;> exact Nat.le_refl _
  have hwatcher : ∀ t : Task, t.graceOver.toll τ ≤ t.toll τ + τ.unit := by
    intro t
    unfold Task.graceOver Task.toll
    dsimp only
    rw [if_pos rfl]
    exact Nat.add_le_add_right (Nat.le_add_right _ _) _
  unfold alarm
  cases a with
  | container => exact Nat.le_trans (Nat.le_of_eq (toll_wake s _)) (Nat.le_add_right _ _)
  | controller id =>
      have hle := sum_map_modify_le hcontroller s.controllers id
      dsimp only
      rw [toll_wake]
      simp only [toll]
      omega
  | task id =>
      have hle := sum_map_modify_le htask s.tasks id
      dsimp only
      rw [toll_wake]
      simp only [toll]
      omega
  | watcher id =>
      have hle := sum_map_modify_le hwatcher s.tasks id
      dsimp only
      rw [toll_wake]
      simp only [toll]
      omega

/-- A timer goes off. -/
theorem toll_elapse {timer : Timer} (h : timer ∈ s.world.timers) :
    (s.elapse timer).toll τ + τ.unit ≤ s.toll τ := by
  unfold elapse
  rw [if_pos h]
  refine Nat.le_trans (Nat.add_le_add_right (toll_alarm _ _) _) (Nat.le_of_eq ?_)
  have hlength := List.length_erase_of_mem h
  have hpos := List.length_pos_of_mem h
  obtain ⟨k, hk⟩ : ∃ k, s.world.timers.length = k + 1 := ⟨_, (Nat.succ_pred_eq_of_pos hpos).symm⟩
  simp only [toll, hlength, hk, Nat.add_sub_cancel, Nat.mul_succ]
  omega

end System

end ServiceHost
