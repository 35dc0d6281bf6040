import ServiceHost.Proofs.Graph.Signals
import ServiceHost.Proofs.System.Turns
import ServiceHost.System.Moves

/-! # What the parts of a step leave alone

Waking, logging and answering change neither the container nor the controllers nor the tasks;
sending only adds to the inbox of a container that takes requests, and delivery only to the inboxes
of controllers. -/

namespace ServiceHost

/-- The signals in the inbox of a controller, oldest first. -/
def Controller.signals (c : Controller) : List Signal := c.inbox.filterMap Message.signal?

/-- The controller with some more messages in its inbox, unless it has ended. -/
def Controller.told (c : Controller) (messages : List Message) : Controller :=
  if c.ended then c else { c with inbox := c.inbox ++ messages }

theorem Controller.told_nil (c : Controller) : c.told [] = c := by
  unfold told
  split
  · rfl
  · simp

theorem Controller.told_append (c : Controller) (l l' : List Message) :
    (c.told l).told l' = c.told (l ++ l') := by
  unfold told
  by_cases h : c.ended = true <;> simp [h]

/-- The controller a turn leaves once the work it deferred, if any, is with the task of a number. -/
def Turn.final (t : Turn) (task : Nat) : Controller :=
  if t.controller.ended then { t.controller with ended := true, inbox := [], install := none }
  else
    match t.deferred with
    | none => t.controller
    | some _ => { t.controller with pending := some task }

/-- The container with some more requests in its inbox, if it takes any. -/
def Container.sent (c : Container) (requests : List Request) : Container :=
  if c.isServing then { c with inbox := c.inbox ++ requests } else c

theorem Container.sent_nil (c : Container) : c.sent [] = c := by
  unfold sent
  split
  · simp
  · rfl

theorem Container.sent_append (c : Container) (l l' : List Request) :
    (c.sent l).sent l' = c.sent (l ++ l') := by
  unfold sent
  by_cases h : c.isServing = true
  · have h' : Container.isServing { c with inbox := c.inbox ++ l } = true := h
    simp [h, h']
  · simp [h]

namespace System

variable (s : System)

/-! ## Waking and logging -/

/-- Waking concerns nothing but who acts next. -/
theorem wakeAll_eq (l : List Actor) : ∃ ready, s.wakeAll l = { s with ready } := by
  unfold wakeAll
  induction l generalizing s with
  | nil => exact ⟨s.ready, rfl⟩
  | cons a l ih =>
      obtain ⟨ready, h⟩ := ih (s.wake a)
      refine ⟨ready, h.trans ?_⟩
      unfold wake
      split <;> rfl

theorem wake_eq (a : Actor) : ∃ ready, s.wake a = { s with ready } := s.wakeAll_eq [a]

@[simp] theorem wake_world (a : Actor) : (s.wake a).world = s.world := by
  rw [(s.wake_eq a).choose_spec]

@[simp] theorem wake_container (a : Actor) : (s.wake a).container = s.container := by
  rw [(s.wake_eq a).choose_spec]

@[simp] theorem wake_controllers (a : Actor) : (s.wake a).controllers = s.controllers := by
  rw [(s.wake_eq a).choose_spec]

@[simp] theorem wake_tasks (a : Actor) : (s.wake a).tasks = s.tasks := by
  rw [(s.wake_eq a).choose_spec]

@[simp] theorem wake_cancelled (a : Actor) : (s.wake a).cancelled = s.cancelled := by
  rw [(s.wake_eq a).choose_spec]

@[simp] theorem wakeAll_world (l : List Actor) : (s.wakeAll l).world = s.world := by
  rw [(s.wakeAll_eq l).choose_spec]

@[simp] theorem wakeAll_container (l : List Actor) : (s.wakeAll l).container = s.container := by
  rw [(s.wakeAll_eq l).choose_spec]

@[simp] theorem wakeAll_controllers (l : List Actor) :
    (s.wakeAll l).controllers = s.controllers := by
  rw [(s.wakeAll_eq l).choose_spec]

@[simp] theorem wakeAll_tasks (l : List Actor) : (s.wakeAll l).tasks = s.tasks := by
  rw [(s.wakeAll_eq l).choose_spec]

@[simp] theorem wakeAll_cancelled (l : List Actor) : (s.wakeAll l).cancelled = s.cancelled := by
  rw [(s.wakeAll_eq l).choose_spec]

/-- Two states of the system in which the same actors have the same before them. -/
structure Unmoved (s s' : System) : Prop where
  container : s'.container = s.container
  controllers : s'.controllers = s.controllers
  tasks : s'.tasks = s.tasks
  cancelled : s'.cancelled = s.cancelled

namespace Unmoved

variable {s} {s' s'' : System}

theorem refl (s : System) : s.Unmoved s := ⟨rfl, rfl, rfl, rfl⟩

theorem trans (h : s.Unmoved s') (h' : s'.Unmoved s'') : s.Unmoved s'' :=
  ⟨h'.container.trans h.container, h'.controllers.trans h.controllers, h'.tasks.trans h.tasks,
    h'.cancelled.trans h.cancelled⟩

end Unmoved

theorem unmoved_wake (a : Actor) : s.Unmoved (s.wake a) := by constructor <;> simp

theorem unmoved_log (level : Level) (message : String) : s.Unmoved (s.log level message) :=
  ⟨rfl, rfl, rfl, rfl⟩

/-- Giving up the container concerns nothing but who holds its task. -/
theorem giveUp_eq : ∃ givenUp, s.giveUp = { s with givenUp } := by
  unfold giveUp
  split
  · exact ⟨true, rfl⟩
  · exact ⟨s.givenUp, rfl⟩

theorem unmoved_giveUp : s.Unmoved s.giveUp := by
  obtain ⟨givenUp, h⟩ := s.giveUp_eq
  rw [h]
  exact ⟨rfl, rfl, rfl, rfl⟩

theorem giveUp_world : s.giveUp.world = s.world := by
  obtain ⟨givenUp, h⟩ := s.giveUp_eq
  rw [h]

@[simp] theorem settle_world (ticket : Ticket) (outcome : Except Error Answer) :
    (s.settle ticket outcome).world = s.world.settle ticket outcome := by simp [settle]

theorem unmoved_settle (ticket : Ticket) (outcome : Except Error Answer) :
    s.Unmoved (s.settle ticket outcome) := by
  constructor <;> simp [settle]

theorem unmoved_settleAll (tickets : List Ticket) (outcome : Except Error Answer) :
    s.Unmoved (s.settleAll tickets outcome) := by
  unfold settleAll
  induction tickets generalizing s with
  | nil => exact .refl s
  | cons t tickets ih => exact (unmoved_settle s t outcome).trans (ih _)

theorem unmoved_refuse (request : Request) (e : Error) : s.Unmoved (s.refuse request e) := by
  unfold refuse
  split
  · exact (unmoved_log s _ _).trans (unmoved_settle _ _ _)
  · exact unmoved_settleAll s _ _

theorem unmoved_noticeEnd : s.Unmoved s.noticeEnd := by
  unfold noticeEnd
  split
  · exact unmoved_wake s _
  · exact .refl s

theorem noticeEnd_world : s.noticeEnd.world = s.world := by
  unfold noticeEnd
  split
  · exact wake_world _ _
  · rfl

/-! ## Sending -/

variable {s} {s' : System}

/-- What sending requests makes of the actors. -/
structure Sends (s : System) (requests : List Request) (s' : System) : Prop where
  container : s'.container = s.container.sent requests
  controllers : s'.controllers = s.controllers
  tasks : s'.tasks = s.tasks
  cancelled : s'.cancelled = s.cancelled

theorem sends_send (s : System) (r : Request) : s.Sends [r] (s.send r) := by
  unfold send Container.refusal?
  by_cases h : s.container.isServing = true
  · have hu := unmoved_wake
      { s with container := { s.container with inbox := s.container.inbox ++ [r] } } .container
    rw [if_pos h]
    exact ⟨by rw [hu.container, Container.sent, if_pos h], hu.controllers, hu.tasks, hu.cancelled⟩
  · have hu := unmoved_refuse s r (.invalidState r.operation s.container.stage)
    rw [if_neg h]
    exact ⟨by rw [hu.container, Container.sent, if_neg h], hu.controllers, hu.tasks, hu.cancelled⟩

theorem sends_sendAll (s : System) (requests : List Request) :
    s.Sends requests (s.sendAll requests) := by
  unfold sendAll
  induction requests generalizing s with
  | nil => exact ⟨s.container.sent_nil.symm, rfl, rfl, rfl⟩
  | cons r requests ih =>
      have hr := sends_send s r
      have h := ih (s.send r)
      rw [List.foldl_cons]
      refine ⟨?_, h.controllers.trans hr.controllers, h.tasks.trans hr.tasks,
        h.cancelled.trans hr.cancelled⟩
      rw [h.container, hr.container, Container.sent_append]
      rfl

/-! ## Delivery -/

/-- What a controller has before it. -/
def inboxOf (s : System) (i : Nat) : List Message := (s.controllers[i]?.map (·.inbox)).getD []

theorem inboxOf_eq {i : Nat} {c : Controller} (hc : s.controllers[i]? = some c) :
    s.inboxOf i = c.inbox := by
  simp [inboxOf, hc]

theorem inboxOf_of_none {i : Nat} (h : s.controllers[i]? = none) : s.inboxOf i = [] := by
  simp [inboxOf, h]

theorem deliver_controllers (s : System) (d : Delivery) (j : Nat) :
    (s.deliver d).controllers[j]? =
      s.controllers[j]?.map (·.told (Graph.Trial.messagesTo j [d])) := by
  unfold deliver
  cases hc : s.controllers[d.inbox]? with
  | none =>
      by_cases hj : d.inbox = j
      · subst hj
        simp [hc]
      · simp [Graph.Trial.messagesTo, hj, Controller.told_nil]
  | some c =>
      have hlen : d.inbox < s.controllers.length := (List.getElem?_eq_some_iff.mp hc).1
      by_cases hended : c.ended = true
      · by_cases hj : d.inbox = j
        · subst hj
          simp [hc, hended, Controller.told]
        · simp [hended, Graph.Trial.messagesTo, hj, Controller.told_nil]
      · have hset : ∀ s' : System, s'.controllers = s.controllers.set d.inbox
            { c with inbox := c.inbox ++ [d.message] } → s'.controllers[j]? =
            s.controllers[j]?.map (·.told (Graph.Trial.messagesTo j [d])) := by
          intro s' hs'
          rw [hs', List.getElem?_set]
          by_cases hj : d.inbox = j
          · subst hj
            rw [if_pos rfl, if_pos hlen, hc, Option.map_some, Controller.told, if_neg hended]
            simp [Graph.Trial.messagesTo]
          · simp [hj, Graph.Trial.messagesTo, Controller.told_nil]
        dsimp only
        rw [if_neg hended]
        split
        · exact hset _ (wake_controllers _ _)
        · exact hset _ rfl

/-- What delivery makes of the actors. -/
structure Delivers (s : System) (sent : List Delivery) (s' : System) : Prop where
  container : s'.container = s.container
  controllers : ∀ j : Nat, s'.controllers[j]? =
    s.controllers[j]?.map (·.told (Graph.Trial.messagesTo j sent))
  tasks : s'.tasks = s.tasks
  cancelled : s'.cancelled = s.cancelled
  world : s'.world = s.world

theorem delivers_deliver (s : System) (d : Delivery) : s.Delivers [d] (s.deliver d) := by
  refine ⟨?_, deliver_controllers s d, ?_, ?_, ?_⟩ <;>
  · unfold deliver
    split
    · rfl
    · split
      · rfl
      · dsimp only
        split <;> simp [setController]

theorem delivers_deliverAll (s : System) (sent : List Delivery) :
    s.Delivers sent (s.deliverAll sent) := by
  unfold deliverAll
  induction sent generalizing s with
  | nil =>
      refine ⟨rfl, fun j => ?_, rfl, rfl, rfl⟩
      simp [Graph.Trial.messagesTo, Controller.told_nil]
  | cons d sent ih =>
      have h := ih (s.deliver d)
      have hd := delivers_deliver s d
      rw [List.foldl_cons]
      refine ⟨h.container.trans hd.container, fun j => ?_, h.tasks.trans hd.tasks,
        h.cancelled.trans hd.cancelled, h.world.trans hd.world⟩
      rw [h.controllers, hd.controllers, Option.map_map]
      congr 1
      funext c
      rw [Function.comp_apply, Controller.told_append]
      congr 1
      unfold Graph.Trial.messagesTo
      by_cases hj : d.inbox = j <;> simp [hj]

/-! ## Turns -/

/-- What a turn of a controller makes of the actors. -/
structure Applies (s : System) (id : Nat) (t : Turn) (s' : System) : Prop where
  container : s'.container = s.container.sent (t.requests ++ t.reported.toList)
  controllers : s'.controllers = s.controllers.set id (t.final s.tasks.length)
  tasks : ∀ k : Nat, s'.tasks[k]? =
    if k = s.tasks.length then t.deferred.map fun (phase, work) =>
      Task.launch id t.controller.name phase work
    else s.tasks[k]?.map fun task =>
      if t.calledOff = some k then { task with unwanted := true } else task
  cancelled : s'.cancelled = s.cancelled

namespace Applies

variable {s s' : System} {id : Nat} {t : Turn} (h : s.Applies id t s')
include h

/-- A turn leaves the other controllers as they were. -/
theorem cases_controller {i : Nat} {c' : Controller} (hc' : s'.controllers[i]? = some c') :
    (id = i ∧ c' = t.final s.tasks.length) ∨ (id ≠ i ∧ s.controllers[i]? = some c') := by
  rw [h.controllers, List.getElem?_set] at hc'
  split at hc'
  · next hi =>
      obtain ⟨_, he⟩ := Option.ite_none_right_eq_some.mp hc'
      exact .inl ⟨hi, (Option.some.inj he).symm⟩
  · next hi => exact .inr ⟨hi, hc'⟩

/-- A turn may leave a task, and call one off. -/
theorem cases_task {k : Nat} {task' : Task} (htask : s'.tasks[k]? = some task') :
    (∃ phase work, t.deferred = some (phase, work) ∧
      task' = .launch id t.controller.name phase work) ∨
    ∃ task, s.tasks[k]? = some task ∧ (task' = task ∨ task' = { task with unwanted := true }) := by
  rw [h.tasks] at htask
  split at htask
  · obtain ⟨⟨phase, work⟩, hd, rfl⟩ := Option.map_eq_some_iff.mp htask
    exact .inl ⟨phase, work, hd, rfl⟩
  · obtain ⟨task, hold, rfl⟩ := Option.map_eq_some_iff.mp htask
    refine .inr ⟨task, hold, ?_⟩
    split
    · exact .inr rfl
    · exact .inl rfl

end Applies

theorem callOff_tasks (s : System) (id k : Nat) : (s.callOff id).tasks[k]? =
    s.tasks[k]?.map fun task => if id = k then { task with unwanted := true } else task := by
  unfold callOff
  cases h : s.tasks[id]? with
  | none =>
      by_cases hk : id = k
      · subst hk
        simp [h]
      · simp [hk]
  | some task =>
      have hlen : id < s.tasks.length := (List.getElem?_eq_some_iff.mp h).1
      simp only [wake_tasks, setTask, List.getElem?_set]
      by_cases hk : id = k
      · subst hk
        rw [if_pos rfl, if_pos hlen, h]
        simp
      · simp [hk]

/-- Calling a task off concerns that task alone. -/
structure CallsOff (s : System) (task : Option Nat) (s' : System) : Prop where
  container : s'.container = s.container
  controllers : s'.controllers = s.controllers
  tasks : ∀ k : Nat, s'.tasks[k]? = s.tasks[k]?.map fun t =>
    if task = some k then { t with unwanted := true } else t
  cancelled : s'.cancelled = s.cancelled
  length : s'.tasks.length = s.tasks.length

theorem callsOff_foldl (s : System) (task : Option Nat) :
    s.CallsOff task (task.toList.foldl callOff s) := by
  cases task with
  | none => exact ⟨rfl, rfl, fun k => by simp, rfl, rfl⟩
  | some id =>
      refine ⟨?_, ?_, fun k => ?_, ?_, ?_⟩
      · simp only [Option.toList, List.foldl_cons, List.foldl_nil, callOff]
        split <;> simp [setTask]
      · simp only [Option.toList, List.foldl_cons, List.foldl_nil, callOff]
        split <;> simp [setTask]
      · simpa using callOff_tasks s id k
      · simp only [Option.toList, List.foldl_cons, List.foldl_nil, callOff]
        split <;> simp [setTask]
      · simp only [Option.toList, List.foldl_cons, List.foldl_nil, callOff]
        split <;> simp [setTask]

theorem unmoved_endController (s : System) (id : Nat) (c : Controller) :
    (s.setController id { c with ended := true, inbox := [], install := none }).Unmoved
      (s.endController id c) :=
  (unmoved_settleAll _ _ _).trans (unmoved_noticeEnd _)

/-- The work a controller left, if any, is with a new task. -/
structure Launches (s : System) (id : Nat) (c : Controller) (deferred : Option (Phase × Completion))
    (s' : System) : Prop where
  container : s'.container = s.container
  controllers : s'.controllers = s.controllers.set id
    (if deferred.isSome then { c with pending := some s.tasks.length } else c)
  tasks : ∀ k : Nat, s'.tasks[k]? =
    if k = s.tasks.length then deferred.map fun d => Task.launch id c.name d.1 d.2
    else s.tasks[k]?
  cancelled : s'.cancelled = s.cancelled

theorem launches_foldl {s : System} {id : Nat} {c : Controller} (hc : s.controllers[id]? = some c)
    (deferred : Option (Phase × Completion)) : s.Launches id c deferred
      (deferred.toList.foldl (fun s (phase, work) => s.launchTask id phase work) s) := by
  cases deferred with
  | none =>
      obtain ⟨hlt, rfl⟩ := List.getElem?_eq_some_iff.mp hc
      refine ⟨rfl, by simp, fun k => ?_, rfl⟩
      split
      · next hk => exact List.getElem?_eq_none (Nat.le_of_eq hk.symm)
      · rfl
  | some d =>
      refine ⟨by simp [launchTask, hc, setController], by simp [launchTask, hc, setController],
        fun k => ?_, by simp [launchTask, hc, setController]⟩
      simp only [Option.toList_some, List.foldl_cons, List.foldl_nil, launchTask, hc, wakeAll_tasks,
        setController, Option.map_some]
      split
      · next hk => simp [hk]
      · next hk =>
          rcases Nat.lt_or_gt_of_ne hk with hlt | hgt
          · rw [List.getElem?_append_left hlt]
          · rw [List.getElem?_eq_none (by simp; omega), List.getElem?_eq_none (Nat.le_of_lt hgt)]

theorem applies_applyTurn {s : System} {id : Nat} {t : Turn} (hid : id < s.controllers.length) :
    s.Applies id t (s.applyTurn id t) := by
  let s₁ := { s with world := t.world }.setController id t.controller
  let s₂ := t.calledOff.toList.foldl callOff s₁
  let s₃ := s₂.sendAll t.requests
  let s₄ := t.deferred.toList.foldl (fun s (phase, work) => s.launchTask id phase work) s₃
  let s₅ := s₄.sendAll t.reported.toList
  have h₂ : s₁.CallsOff t.calledOff s₂ := callsOff_foldl s₁ t.calledOff
  have h₃ : s₂.Sends t.requests s₃ := sends_sendAll s₂ t.requests
  have h₅ : s₄.Sends t.reported.toList s₅ := sends_sendAll s₄ t.reported.toList
  have hlen : s₃.tasks.length = s.tasks.length := by rw [h₃.tasks, h₂.length]; rfl
  have hget : s₃.controllers[id]? = some t.controller := by
    rw [h₃.controllers, h₂.controllers]
    simp [s₁, setController, hid]
  have h₄ : s₃.Launches id t.controller t.deferred s₄ := launches_foldl hget t.deferred
  have hcontainer : s₅.container = s.container.sent (t.requests ++ t.reported.toList) := by
    rw [h₅.container, h₄.container, h₃.container, h₂.container, Container.sent_append]
    rfl
  have hcontrollers : s₅.controllers = s.controllers.set id
      (if t.deferred.isSome then { t.controller with pending := some s.tasks.length }
        else t.controller) := by
    rw [h₅.controllers, h₄.controllers, h₃.controllers, h₂.controllers, hlen]
    simp [s₁, setController]
  have htasks : ∀ k : Nat, s₅.tasks[k]? =
      if k = s.tasks.length then t.deferred.map fun (phase, work) =>
        Task.launch id t.controller.name phase work
      else s.tasks[k]?.map fun task =>
        if t.calledOff = some k then { task with unwanted := true } else task := by
    intro k
    rw [h₅.tasks, h₄.tasks, h₃.tasks, h₂.tasks, ← h₃.tasks, hlen]
    rfl
  have hcancelled : s₅.cancelled = s.cancelled := by
    rw [h₅.cancelled, h₄.cancelled, h₃.cancelled, h₂.cancelled]
    rfl
  have happly : s.applyTurn id t =
      if t.controller.ended then s₅.endController id t.controller else s₅ := rfl
  rw [happly]
  split
  · next he =>
      have hend := unmoved_endController s₅ id t.controller
      refine ⟨hend.container.trans hcontainer, ?_, fun k => ?_, hend.cancelled.trans hcancelled⟩
      · rw [hend.controllers]
        simp [setController, hcontrollers, Turn.final, he]
      · rw [hend.tasks]
        exact htasks k
  · next he =>
      refine ⟨hcontainer, ?_, htasks, hcancelled⟩
      rw [hcontrollers, Turn.final, if_neg he]
      cases t.deferred <;> rfl

end System

end ServiceHost
