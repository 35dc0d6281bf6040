import ServiceHost.Proofs.System.Attendance
import ServiceHost.Proofs.System.Consistency
import ServiceHost.Proofs.System.Steps

/-! # What controllers and tasks keep up

Turns of controllers, the work of tasks and the passage of time keep the graph and the controllers
in agreement, and everything a controller waits for on its way. -/

namespace ServiceHost

open ServiceHost.Graph (Carried signalsTo)

namespace System

/-- The graph and the controllers agree, and nothing is waited for in vain. -/
structure Grounded (s : System) : Prop where
  uncancelled : s.cancelled = false
  consistent : Consistent s.container.graph s.container.inbox s.controllers
  attended : ∀ {i : Nat} {c : Controller}, s.controllers[i]? = some c → Attended i c s.tasks

variable {s s' : System}

theorem Grounded.endsRemoved (h : s.Grounded) : EndsRemoved s.controllers :=
  fun hc he => ((h.attended hc).ended he).1

/-- Only these parts of a system count. -/
theorem Grounded.congr (h : s.Grounded) (hg : s'.container.graph = s.container.graph)
    (hi : s'.container.inbox = s.container.inbox) (hc : s'.controllers = s.controllers)
    (ht : s'.tasks = s.tasks) (hx : s'.cancelled = s.cancelled) : s'.Grounded := by
  refine ⟨hx.trans h.uncancelled, ?_, ?_⟩
  · rw [hg, hi, hc]
    exact h.consistent
  · rw [hc, ht]
    exact h.attended

theorem Grounded.of_unmoved (h : s.Grounded) (hu : s.Unmoved s') : s'.Grounded :=
  h.congr (by rw [hu.container]) (by rw [hu.container]) hu.controllers hu.tasks hu.cancelled

theorem grounded_initial : initial.Grounded := by
  refine ⟨rfl, consistent_empty, ?_⟩
  intro i c hc
  simp [initial] at hc

end System

/-! ## Time and tasks -/

theorem Controller.alarm_signals (c : Controller) : c.alarm.signals = c.signals := rfl

theorem Controller.alarm_of_idle {c : Controller} (h : c.callback = none) : c.alarm = c := by
  cases c
  cases h
  rfl

theorem Controller.alarm_callback (c : Controller) :
    c.alarm.callback.isSome = c.callback.isSome := by
  simp [alarm]

theorem Consistent.noticed {g : Graph} {inbox : List Request}
    {controllers controllers' : List Controller} (h : Consistent g inbox controllers)
    (hc : ∀ i : Nat, Option.Rel Controller.Noticed controllers[i]? controllers'[i]?) :
    Consistent g inbox controllers' := by
  have hnew : ∀ {i : Nat} {c : Controller}, controllers[i]? = some c →
      ∃ c', controllers'[i]? = some c' ∧ c.Noticed c' := by
    intro i c hi
    have hrel := hc i
    rw [hi] at hrel
    generalize controllers'[i]? = o at hrel
    cases hrel with
    | some hn => exact ⟨_, rfl, hn⟩
  have hold : ∀ {i : Nat} {c' : Controller}, controllers'[i]? = some c' →
      ∃ c, controllers[i]? = some c ∧ c.Noticed c' := by
    intro i c' hi
    have hrel := hc i
    rw [hi] at hrel
    generalize controllers[i]? = o at hrel
    cases hrel with
    | some hn => exact ⟨_, rfl, hn⟩
  refine ⟨h.ordered, ?_, ?_, ?_, h.silent⟩
  · intro m n hn
    obtain ⟨c, hi, hl⟩ := h.linked hn
    obtain ⟨c', hi', rfl | rfl⟩ := hnew hi
    · exact ⟨_, hi', hl⟩
    · exact ⟨_, hi', hl.congr rfl rfl c.alarm_callback c.alarm_signals⟩
  · intro m n c' hn hi' hst
    obtain ⟨c, hi, rfl | rfl⟩ := hold hi'
    · exact h.doomed hn hi hst
    · exact (h.doomed hn hi hst).congr rfl c.alarm_signals
  · intro i c' hi' hno
    obtain ⟨c, hi, rfl | rfl⟩ := hold hi'
    · exact h.gone hi hno
    · exact h.gone (c := c) hi hno

theorem Attended.alarm {i : Nat} {c : Controller} {tasks : List Task} (h : Attended i c tasks) :
    Attended i c.alarm tasks := by
  refine ⟨?_, h.ended, h.last, ?_, h.pending⟩
  · intro callback hcb
    obtain ⟨callback', hcb', he⟩ := Option.map_eq_some_iff.mp hcb
    have hphase : callback.phase = callback'.phase := by
      split at he <;> rw [← he]
    exact hphase ▸ h.callback callback' hcb'
  · intro phase hp
    rw [c.alarm_callback]
    exact h.awaits phase hp

/-- A task that goes on by itself serves as before. -/
theorem Task.Follows.serves {t t' : Task} (h : t.Follows t') {i : Nat} {phase : Phase}
    (hs : t.Serves i phase) : t'.Serves i phase := by
  refine ⟨h.owner.trans hs.owner, h.phase.trans hs.phase, ?_, h.unwanted.trans hs.wanted⟩
  rcases h.watched with hw | ⟨hu, _⟩
  · exact hw.trans hs.watched
  · simp [hs.wanted] at hu

namespace System

variable {s s' : System}

theorem Grounded.calm (h : s.Grounded) (hs : s.Calm s') : s'.Grounded := by
  refine ⟨hs.cancelled.trans h.uncancelled, ?_, ?_⟩
  · rw [hs.container]
    exact h.consistent.noticed hs.controllers
  · intro i c' hc'
    have htasks : Attended i c' s.tasks := by
      obtain ⟨c, hc, rfl | rfl⟩ := hs.exists_controller hc'
      · exact h.attended hc
      · exact (h.attended hc).alarm
    refine htasks.of_tasks fun {k t} ht => ?_
    have hrel := hs.tasks k
    rw [ht] at hrel
    generalize s'.tasks[k]? = o at hrel
    cases hrel with
    | some hf => exact ⟨_, rfl, hf.owner, fun _ => hf.serves⟩

end System

/-- A controller that is told how a callback ended. -/
theorem Linked.told_own {m : Name} {n : Node} {c : Controller} {r : List (State × Option Value)}
    (h : Linked m n c r) (hended : c.ended = true → c.state = .removed) {e : Event}
    (he : e.signal.Own) : Linked m n (c.told [.lifecycle e]) r := by
  have hsignals : [Message.lifecycle e].filterMap Message.signal? = [e.signal] := rfl
  have hno : ∀ x : Signal, ¬x.Own → x ∉ [e.signal] := by
    intro x hx hmem
    exact hx (List.mem_singleton.mp hmem ▸ he)
  refine h.carry hended ?_ rfl h.value ?_
  · rw [hsignals]
    exact .of_same rfl rfl rfl rfl (hno _ (by decide))
      (or_iff_left (hno _ (by decide))).symm
  · rw [hsignals]
    exact fun hx => absurd hx (hno _ (by decide))

namespace System

variable {s s' : System}

theorem event_own (t : Task) (outcome : Except Failure Unit) :
    t.phase.Outcome (t.event outcome).signal := by
  unfold Task.event Phase.Outcome
  cases t.phase <;> cases outcome <;> simp [Event.signal]

/-- One controller is replaced, or there is none of that number. -/
theorem told_one {controllers controllers' : List Controller} {i : Inbox} {message : Message}
    (h : ∀ j : Nat, controllers'[j]? = controllers[j]?.map
      (·.told (Graph.Trial.messagesTo j [⟨i, message⟩]))) (j : Nat) :
    controllers'[j]? = if j = i then controllers[i]?.map (·.told [message]) else controllers[j]? := by
  rw [h]
  split
  · next hj =>
      subst hj
      simp [Graph.Trial.messagesTo]
  · next hj =>
      simp [Graph.Trial.messagesTo, Ne.symm hj, Controller.told_nil]

end System

/-- A controller is told how a callback ended. -/
theorem Consistent.told_own {g : Graph} {inbox : List Request}
    {controllers controllers' : List Controller} {i : Inbox} {e : Event}
    (h : Consistent g inbox controllers) (hended : EndsRemoved controllers) (he : e.signal.Own)
    (hc' : ∀ j : Nat, controllers'[j]? = controllers[j]?.map
      (·.told (Graph.Trial.messagesTo j [⟨i, .lifecycle e⟩]))) :
    Consistent g inbox controllers' := by
  have hctl := System.told_one hc'
  cases hc : controllers[i]? with
  | none =>
      have hsame : controllers' = controllers := by
        apply List.ext_getElem?
        intro j
        rw [hctl]
        split
        · next hj => rw [hj, hc]; rfl
        · rfl
      rw [hsame]
      exact h
  | some c =>
      rw [← List.append_nil inbox]
      have hset : ∀ j : Nat, controllers'[j]? = if j = i then
          some (c.told [.lifecycle e]) else controllers[j]? := by
        intro j
        rw [hctl, hc]
        rfl
      refine h.turn hc hset ?_ ?_ ?_ ?_
      · intro m n r hl
        rw [show reportsOf m [] = [] from rfl, List.append_nil]
        exact hl.told_own (hended hc) he
      · exact fun hd => hd.told _
      · exact fun hr => (c.told_state _).trans hr
      · exact fun _ _ => rfl

namespace System

variable {s s' : System}

theorem Grounded.joins {t : Task} {outcome : Except Failure Unit} {id : Nat} (h : s.Grounded)
    (hs : s.Joins t outcome id s') : s'.Grounded := by
  have hctl := told_one hs.controllers
  have hout := event_own t outcome
  have hid : id < s.tasks.length := (List.getElem?_eq_some_iff.mp hs.task).1
  have htasks : ∀ k : Nat, s'.tasks[k]? =
      if id = k then some { t with watched := false } else s.tasks[k]? := by
    intro k
    simp only [hs.tasks, List.getElem?_set, hid, if_true]
  refine ⟨hs.cancelled.trans h.uncancelled, ?_, ?_⟩
  · rw [hs.container]
    exact h.consistent.told_own h.endsRemoved hout.own hs.controllers
  · intro i c' hc'
    rw [hctl] at hc'
    -- the outcome the task was to tell is in the inbox now
    have hmoved : ∀ {c₀ : Controller}, Attended i c₀ s.tasks →
        (t.owner = i → c' = c₀.told [.lifecycle (t.event outcome)]) →
        (t.owner ≠ i → c' = c₀) → Attended i c' s'.tasks := by
      intro c₀ hatt hyes hno
      have htold : Attended i c' s.tasks := by
        by_cases ho : t.owner = i
        · exact hyes ho ▸ hatt.told _
        · exact hno ho ▸ hatt
      refine ⟨htold.callback, htold.ended, htold.last, fun phase hp => ?_, fun k hk => ?_⟩
      · rcases htold.awaits phase hp with hsome | hx | ⟨k, task, htask, hserves⟩
        · exact .inl hsome
        · exact .inr (.inl hx)
        · by_cases hk : id = k
          · subst hk
            obtain rfl := Option.some.inj (hs.task.symm.trans htask)
            refine .inr (.inl ⟨(t.event outcome).signal, ?_, hserves.phase ▸ hout⟩)
            rw [hyes hserves.owner, Controller.told_signals]
            have hstate : c'.state = c₀.state := by
              rw [hyes hserves.owner, Controller.told_state]
            have hne : c₀.ended = false := hatt.live (hstate ▸ hp)
            simp [hne, Message.signal?]
          · exact .inr (.inr ⟨k, task, by rw [htasks, if_neg hk, htask], hserves⟩)
      · obtain ⟨task, htask, howner⟩ := htold.pending k hk
        rw [htasks]
        split
        · next hk =>
            subst hk
            obtain rfl := Option.some.inj (hs.task.symm.trans htask)
            exact ⟨_, rfl, howner⟩
        · exact ⟨task, htask, howner⟩
    split at hc'
    · next hi =>
        subst hi
        obtain ⟨c, hc, rfl⟩ := Option.map_eq_some_iff.mp hc'
        exact hmoved (h.attended hc) (fun _ => rfl) (fun hne => absurd rfl hne)
    · next hi => exact hmoved (h.attended hc') (fun ho => absurd ho.symm hi) (fun _ => rfl)

end System

/-! ## Turns -/

/-- How often a controller has its dependencies before it, with certain values. -/
def Controller.offers (c : Controller) (values : List (Name × Value)) : Nat :=
  c.inbox.count (.lifecycle (.dependenciesAvailable values))

/-- A controller never gives itself its dependencies. -/
theorem Controller.offers_of_own {c : Controller} {inbox : List Message} {own : List Event}
    (hi : c.inbox = inbox ++ own.map .lifecycle) (hown : ∀ e ∈ own, e.signal.Own)
    (values : List (Name × Value)) :
    c.offers values = inbox.count (.lifecycle (.dependenciesAvailable values)) := by
  have hnone : Message.lifecycle (.dependenciesAvailable values) ∉ own.map Message.lifecycle := by
    intro hmem
    obtain ⟨e, he, heq⟩ := List.mem_map.mp hmem
    obtain rfl := Message.lifecycle.inj heq
    have := hown _ he
    simp [Signal.Own, Event.signal] at this
  rw [offers, hi, List.count_append, List.count_eq_zero_of_not_mem hnone, Nat.add_zero]

theorem Turn.offers_final (t : Turn) (task : Nat) (values : List (Name × Value)) :
    (t.final task).offers values ≤ t.controller.offers values := by
  unfold Turn.final
  split
  · simp [Controller.offers]
  · split <;> exact Nat.le_refl _

/-- What a turn of a controller means for its service, whatever becomes of its tasks; the next of
these has the number given. -/
structure Upholds (c : Controller) (task : Nat) (t : Turn) : Prop where
  linked : ∀ {m : Name} {n : Node} {r : List (State × Option Value)}, Linked m n c r →
    Linked m n (t.final task) (r ++ reportsOf m t.reported.toList)
  doomed : c.Doomed → (t.final task).Doomed
  removed : c.state = .removed → (t.final task).state = .removed
  ended : (t.final task).ended = true → (t.final task).state = .removed
  reports : ∀ {m : Name}, c.state = .removed ∨ c.plan.name ≠ m →
    reportsOf m t.reported.toList = []
  tickets : ∀ r ∈ t.requests, r.ticket?.isSome = true

/-- What a turn of a controller means for its service and for its tasks. -/
structure Turned (id : Nat) (c : Controller) (tasks : List Task) (t : Turn) : Prop where
  linked : ∀ {m : Name} {n : Node} {r : List (State × Option Value)}, Linked m n c r →
    Linked m n (t.final tasks.length) (r ++ reportsOf m t.reported.toList)
  doomed : c.Doomed → (t.final tasks.length).Doomed
  removed : c.state = .removed → (t.final tasks.length).state = .removed
  reports : ∀ {m : Name}, c.state = .removed ∨ c.plan.name ≠ m →
    reportsOf m t.reported.toList = []
  tickets : ∀ r ∈ t.requests, r.ticket?.isSome = true
  attended : ∀ {tasks' : List Task}, TurnsInto id t tasks tasks' →
    Attended id (t.final tasks.length) tasks'
  calledOff : ∀ k : Nat, t.calledOff = some k → ∃ task : Task, tasks[k]? = some task ∧
    task.owner = id
  offers : ∀ values : List (Name × Value), (t.final tasks.length).offers values ≤ c.offers values

section Turned

variable {id : Nat} {c : Controller} {tasks : List Task} {t : Turn} {w : World}
  {rest : List Message} {message : Message}

theorem Turn.Skipped.final (h : t.Skipped w c rest) (hlive : c.ended = false) (task : Nat) :
    t.final task = { c with inbox := rest } := by
  simp [Turn.final, h.controller, h.deferred, hlive]

theorem Turn.Skipped.upholds (h : t.Skipped w c rest) (hlive : c.ended = false)
    (hi : c.inbox = message :: rest) (hno : ∀ x, message.signal? = some x → ¬c.Heeds x)
    (task : Nat) : Upholds c task t := by
  have hfinal := h.final hlive task
  refine ⟨?_, ?_, ?_, ?_, ?_, ?_⟩
  · intro m n r hl
    rw [hfinal, h.reported]
    simpa [reportsOf] using hl.skip hi hno
  · intro hd
    rw [hfinal]
    exact hd.skip hi hno
  · intro hr
    rw [hfinal]
    exact hr
  · intro he
    rw [hfinal] at he
    exact absurd he (by simp [hlive])
  · intro m _
    rw [h.reported]
    rfl
  · simp [h.requests]

theorem Turn.Moved.upholds {e : Event} {next : State} {effects : List Effect}
    (h : t.Moved w c rest next effects) (hlive : c.ended = false)
    (hi : c.inbox = .lifecycle e :: rest) (hc : c.callback = none)
    (hm : Moves c.interruptible c.state e.signal next effects) (task : Nat) :
    Upholds c task t := by
  have hended : t.controller.ended = true → t.controller.state = .removed := by
    intro he
    rw [h.ended, hlive, Bool.false_or] at he
    have hr := hm.terminate (of_decide_eq_true he)
    rw [hr] at hm
    exact h.state.trans hm.removed
  obtain ⟨w', _, hasked⟩ := h.asks
  refine ⟨fun hl => (hl.move hi hc hm h).final hended _, fun hd => (hd.move hi hm h).final hended _,
    ?_, ?_, ?_, hasked.ticket_isSome⟩
  · intro hr
    rw [hr] at hm
    rw [t.final_state, h.state, hm.removed]
  · rw [t.final_ended, t.final_state]
    exact hended
  · intro m hr
    rw [h.reported]
    split
    · rfl
    · next hno =>
        rcases hr with hr | hr
        · rw [hr] at hm hno
          exact absurd (.inl (by rw [hm.removed])) hno
        · simp [reportsOf, hr]

theorem Turn.Resumed.upholds {callback : Callback} (h : t.Resumed w c callback.phase)
    (hlive : c.ended = false) (hin : callback.phase.In c.state) (hc : c.callback = some callback)
    (task : Nat) : Upholds c task t := by
  have hne : ∀ s : State, s = .started ∨ s = .removed → c.state ≠ s := by
    rintro s hs rfl
    cases hp : callback.phase <;> rcases hs with hs | hs <;>
      simp [Phase.In, hp, hs, State.phase] at hin
  have hended : t.controller.ended = false := h.alike.ended.trans hlive
  have hnever : t.controller.ended = true → t.controller.state = .removed :=
    fun he => absurd he (by simp [hended])
  refine ⟨fun hl => (hl.resume (by rw [hc]; rfl) (hne _ (.inl rfl)) h).final hnever _,
    fun hd => (hd.resume h).final hnever _, fun hr => absurd hr (hne _ (.inr rfl)), ?_, ?_,
    h.asks.ticket_isSome⟩
  · rw [t.final_ended, t.final_state]
    exact hnever
  · intro m hr
    rw [h.reported]
    split
    · rfl
    · rcases hr with hr | hr
      · exact absurd hr (hne _ (.inr rfl))
      · simp [reportsOf, hr]

theorem Attended.live_of_inbox (h : Attended id c tasks) (hi : c.inbox = message :: rest) :
    c.ended = false := by
  by_contra he
  simp [(h.ended (by simpa using he)).2] at hi

theorem Turn.Skipped.turned (h : t.Skipped w c rest) (ha : Attended id c tasks)
    (hi : c.inbox = message :: rest) (hno : ∀ x, message.signal? = some x → ¬c.Heeds x) :
    Turned id c tasks t := by
  have hlive := ha.live_of_inbox hi
  have hfinal := h.final hlive tasks.length
  have hu := h.upholds hlive hi hno tasks.length
  refine ⟨hu.linked, hu.doomed, hu.removed, hu.reports, hu.tickets, ?_, ?_, fun values => ?_⟩
  · intro tasks' ht
    rw [hfinal]
    refine (ha.skip hi hno).of_tasks fun {k task} htask => ?_
    obtain ⟨task', htask', howner, hsame⟩ := ht.owner htask
    exact ⟨task', htask', howner, fun _ hs => hsame (by simp [h.calledOff]) ▸ hs⟩
  · simp [h.calledOff]
  · rw [hfinal, Controller.offers, Controller.offers, hi]
    exact List.count_le_count_cons

theorem Turn.Moved.turned {e : Event} {next : State} {effects : List Effect}
    (h : t.Moved w c rest next effects) (ha : Attended id c tasks)
    (hi : c.inbox = .lifecycle e :: rest) (hc : c.callback = none)
    (hm : Moves c.interruptible c.state e.signal next effects) : Turned id c tasks t := by
  have hu := h.upholds (ha.live_of_inbox hi) hi hc hm tasks.length
  refine ⟨hu.linked, hu.doomed, hu.removed, hu.reports, hu.tickets, ha.move hi hc hm h, ?_,
    fun values => ?_⟩
  · intro k hk
    have hcalled := h.called
    split at hcalled
    · exact ha.pending k (hcalled.1 ▸ hk)
    · simp [hcalled.1] at hk
  · obtain ⟨own, hinbox, hown⟩ := h.own
    refine Nat.le_trans (t.offers_final _ values) ?_
    rw [Controller.offers_of_own hinbox hown, Controller.offers, hi]
    exact List.count_le_count_cons

theorem Turn.Resumed.turned {callback : Callback} (h : t.Resumed w c callback.phase)
    (ha : Attended id c tasks) (hc : c.callback = some callback) : Turned id c tasks t := by
  have hin := ha.callback callback hc
  have hu := h.upholds (ha.live hin) hin hc tasks.length
  refine ⟨hu.linked, hu.doomed, hu.removed, hu.reports, hu.tickets, ha.resume hc h, ?_,
    fun values => ?_⟩
  · simp [h.calledOff]
  · obtain ⟨own, hinbox, hown⟩ := h.came.own
    exact Nat.le_trans (t.offers_final _ values)
      (Nat.le_of_eq (Controller.offers_of_own hinbox hown values))

theorem turned_take (ha : Attended id c tasks) (h : c.canTake = true) (w : World) :
    Turned id c tasks (c.take id w) := by
  rcases Controller.take_cases h id w with
    ⟨message, rest, hi, hno, _, hs⟩ | ⟨e, rest, next, hi, hc, hm, ht⟩
  · exact hs.turned ha hi hno
  · exact ht.turned ha hi hc hm

theorem turned_resume {callback : Callback} {answer : Option (Awaited × Except Error Answer)}
    (ha : Attended id c tasks) (h : c.wakeUp? w = some (callback, answer)) :
    Turned id c tasks (c.resume id w) :=
  (Controller.resume_resumed h id).turned ha (Controller.callback_of_wakeUp? h)

end Turned

theorem reportsOf_requests {m : Name} {requests : List Request}
    (h : ∀ r ∈ requests, r.ticket?.isSome = true) : reportsOf m requests = [] := by
  unfold reportsOf
  rw [List.filterMap_eq_nil_iff]
  intro r hr
  have := h r hr
  cases r <;> first | rfl | simp [Request.ticket?] at this

/-- What is sent to a container that takes no requests is of no consequence. -/
theorem Consistent.sent {g : Graph} {container : Container} {controllers : List Controller}
    {out : List Request} (h : Consistent g (container.inbox ++ out) controllers)
    (hout : container.isServing = false → ∀ m, reportsOf m out = []) :
    Consistent g (container.sent out).inbox controllers := by
  unfold Container.sent
  split
  · exact h
  · next hno =>
      refine h.congr fun m => ?_
      rw [reportsOf_append, hout (by simpa using hno) m, List.append_nil]

/-- A turn comes into effect: it is reported, and what the callback asks for is sent. -/
theorem Consistent.upheld {container : Container} {controllers : List Controller}
    {id task : Nat} {c : Controller} {t : Turn}
    (h : Consistent container.graph container.inbox controllers)
    (hunserved : container.isServing = false → ∀ m : Name, container.graph.nodes[m]? = none)
    (hc : controllers[id]? = some c) (ht : Upholds c task t) :
    Consistent (container.sent (t.requests ++ t.reported.toList)).graph
      (container.sent (t.requests ++ t.reported.toList)).inbox
      (controllers.set id (t.final task)) := by
  have hset : ∀ j : Nat, (controllers.set id (t.final task))[j]? =
      if j = id then some (t.final task) else controllers[j]? := by
    intro j
    rw [List.getElem?_set]
    by_cases hj : id = j
    · subst hj
      simp [(List.getElem?_eq_some_iff.mp hc).1]
    · simp [hj, Ne.symm hj]
  have hout : ∀ m, reportsOf m (t.requests ++ t.reported.toList) = reportsOf m t.reported.toList :=
    fun m => by rw [reportsOf_append, reportsOf_requests ht.tickets, List.nil_append]
  have hgraph : (container.sent (t.requests ++ t.reported.toList)).graph = container.graph := by
    unfold Container.sent
    split <;> rfl
  rw [hgraph]
  refine Consistent.sent ?_ fun hno m => ?_
  · refine h.turn hc hset ?_ ht.doomed ht.removed ?_
    · intro m n r hl
      rw [hout]
      exact ht.linked hl
    · intro m hm
      rw [hout]
      exact ht.reports hm
  · rw [hout]
    refine ht.reports (.inl (h.gone hc ?_))
    rintro m ⟨n, hn, _⟩
    simp [hunserved hno m] at hn

theorem Turned.upholds {id : Nat} {c : Controller} {tasks tasks' : List Task} {t : Turn}
    (h : Turned id c tasks t) (ht : TurnsInto id t tasks tasks') : Upholds c tasks.length t :=
  ⟨h.linked, h.doomed, h.removed, fun he => ((h.attended ht).ended he).1, h.reports, h.tickets⟩

namespace System

variable {s s' : System}

theorem Grounded.turn {id : Nat} {c : Controller} {t : Turn} (h : s.Grounded)
    (hunserved : s.container.isServing = false → ∀ m : Name, s.container.graph.nodes[m]? = none)
    (hc : s.controllers[id]? = some c) (ht : Turned id c s.tasks t) :
    (s.applyTurn id t).Grounded := by
  have hid : id < s.controllers.length := (List.getElem?_eq_some_iff.mp hc).1
  have ha := applies_applyTurn (t := t) hid
  refine ⟨ha.cancelled.trans h.uncancelled, ?_, ?_⟩
  · rw [ha.container, ha.controllers]
    exact h.consistent.upheld hunserved hc (ht.upholds ha.tasks)
  · intro i b hb
    rcases ha.cases_controller hb with ⟨rfl, rfl⟩ | ⟨hi, hb⟩
    · exact ht.attended ha.tasks
    · exact (h.attended hb).of_turn (Ne.symm hi) ht.calledOff ha.tasks

theorem Grounded.asked {requests : List Request} {w : World} (h : s.Grounded)
    (ha : Asked s.world requests w) : ({ s with world := w }.sendAll requests).Grounded := by
  have hs := sends_sendAll { s with world := w } requests
  have hgraph : (s.container.sent requests).graph = s.container.graph := by
    unfold Container.sent
    split <;> rfl
  refine ⟨hs.cancelled.trans h.uncancelled, ?_, ?_⟩
  · rw [hs.container, hs.controllers]
    show Consistent (s.container.sent requests).graph (s.container.sent requests).inbox s.controllers
    rw [hgraph]
    have hnone : ∀ m, reportsOf m requests = [] := fun m => reportsOf_requests ha.ticket_isSome
    refine Consistent.sent (h.consistent.congr fun m => ?_) fun _ => hnone
    rw [reportsOf_append, hnone, List.append_nil]
  · rw [hs.controllers, hs.tasks]
    exact h.attended

end System

end ServiceHost
