import ServiceHost.Proofs.System.Completions
import ServiceHost.Proofs.System.Invocations
import ServiceHost.Proofs.System.Notices

/-! # The course of a callback

A callback is invoked, it comes back, and its controller is told what became of it. These are read
off the steps of a run: the last of them from what is put into the inbox of the controller. -/

namespace ServiceHost

open ServiceHost.Graph (Trial)

/-- What there is in the course of a callback. -/
inductive Milestone
  | invoked
  | returned (outcome : Except Failure Unit)
  | told (event : Event)
  deriving DecidableEq

/-- The event that a message is, if it is one. -/
def Message.event? : Message → Option Event
  | .lifecycle e => some e
  | .reference _ => none

instance Phase.decidableOutcome : (phase : Phase) → (x : Signal) → Decidable (phase.Outcome x)
  | .start, x => inferInstanceAs (Decidable (x = .started ∨ x = .startFailed))
  | .stop, x => inferInstanceAs (Decidable (x = .stopped))

/-- The events among some messages that tell what became of a callback. -/
def Phase.outcomesIn (phase : Phase) (messages : List Message) : List Event :=
  (messages.filterMap Message.event?).filter fun e => phase.Outcome e.signal

/-- The callback that comes back when a controller goes on with it. -/
def Controller.cameBack? (c : Controller) (id : Nat) (phase : Phase) (w : World) :
    Option (Except Failure Unit) :=
  match c.wakeUp? w with
  | none => none
  | some (callback, answer) =>
    if callback.phase = phase then c.resumedBack? id w callback answer else none

namespace System

/-- How many messages a controller takes in a step. -/
def taken (s : System) (x : Stimulus) (i : Nat) : Nat :=
  match x with
  | .move (.take j) => if j = i ∧ s.canMove (.take j) then 1 else 0
  | _ => 0

/-- What is put into the inbox of a controller in a step. -/
def arrivals (s : System) (x : Stimulus) (i : Nat) : List Message :=
  ((s.apply x).inboxOf i).drop ((s.inboxOf i).length - s.taken x i)

/-- The callback a controller invokes in a step. -/
def invoked? (s : System) (x : Stimulus) (i : Nat) : Option Phase :=
  match x with
  | .move (.take j) =>
    if j = i then (s.controllers[i]?.filter (·.canTake)).bind (·.invokes? s.world) else none
  | _ => none

/-- How a callback of a controller comes back in a step, if it does. -/
def returned? (s : System) (x : Stimulus) (i : Nat) (phase : Phase) :
    Option (Except Failure Unit) :=
  match x with
  | .move (.take _) =>
    if s.invoked? x i = some phase then
      s.controllers[i]?.bind (·.calledBack? i phase s.world)
    else none
  | .move (.resume j) =>
    if j = i then s.controllers[i]?.bind (·.cameBack? i phase s.world) else none
  | _ => none

/-- What a step adds to the course of a callback. -/
def milestones (s : System) (x : Stimulus) (i : Nat) (phase : Phase) : List Milestone :=
  (if s.invoked? x i = some phase then [.invoked] else []) ++
    (s.returned? x i phase).toList.map .returned ++
    (phase.outcomesIn (s.arrivals x i)).map .told

/-- The course of a callback while things happen. -/
def course (s : System) : List Stimulus → Nat → Phase → List Milestone
  | [], _, _ => []
  | x :: rest, i, phase => s.milestones x i phase ++ (s.apply x).course rest i phase

variable {s s' : System} {x : Stimulus} {i : Nat} {c c' : Controller} {t : Turn} {phase : Phase}
  {happened : List Stimulus}

theorem course_append (s : System) (a b : List Stimulus) (i : Nat) (phase : Phase) :
    s.course (a ++ b) i phase = s.course a i phase ++ (s.run a).course b i phase := by
  induction a generalizing s with
  | nil => rfl
  | cons x a ih => rw [List.cons_append, course, course, ih, List.append_assoc]; rfl

theorem course_snoc (happened : List Stimulus) (x : Stimulus) (i : Nat) (phase : Phase) :
    initial.course (happened ++ [x]) i phase =
      initial.course happened i phase ++ (initial.run happened).milestones x i phase := by
  rw [course_append, course, course, List.append_nil]

end System

/-! ## Tasks -/

/-- A task, if a callback of a controller left it. -/
def taskOf? (tasks : List Task) (i : Nat) (phase : Phase) (k : Nat) : Option Task :=
  tasks[k]?.filter fun task => task.owner = i ∧ task.phase = phase

section Tasks

variable {tasks tasks' : List Task} {i k : Nat} {phase : Phase} {task : Task} {t : Turn}

theorem taskOf?_eq_some : taskOf? tasks i phase k = some task ↔
    tasks[k]? = some task ∧ task.owner = i ∧ task.phase = phase := by
  simp [taskOf?, Option.filter_eq_some_iff]

theorem rel_taskOf? (h : Option.Rel Task.Follows tasks[k]? tasks'[k]?) (i : Nat) (phase : Phase) :
    Option.Rel Task.Follows (taskOf? tasks i phase k) (taskOf? tasks' i phase k) := by
  unfold taskOf?
  generalize tasks[k]? = o at h
  generalize tasks'[k]? = o' at h
  cases h with
  | none => exact .none
  | some hf =>
      simp only [Option.filter_some, hf.owner, hf.phase]
      split
      · exact .some hf
      · exact .none

theorem rel_refl (o : Option Task) : Option.Rel Task.Follows o o := by
  cases o with
  | none => exact .none
  | some task => exact .some (.refl task)

/-- What the turn of another controller does to tasks is nothing to those of this one. -/
theorem rel_taskOf?_of_turn {j : Nat} (htasks : TurnsInto j t tasks tasks') (hne : j ≠ i)
    (hcalled : ∀ k : Nat, t.calledOff = some k → ∃ task : Task, tasks[k]? = some task ∧
      task.owner = j) (phase : Phase) (k : Nat) :
    Option.Rel Task.Follows (taskOf? tasks i phase k) (taskOf? tasks' i phase k) := by
  have hk := htasks k
  unfold taskOf?
  split at hk
  · next hlen =>
      subst hlen
      rw [hk, List.getElem?_eq_none (Nat.le_refl _)]
      cases t.deferred with
      | none => exact .none
      | some left => simp [Option.filter_some, Task.launch, hne]
  · rw [hk]
    cases htask : tasks[k]? with
    | none => exact .none
    | some task =>
        by_cases hoff : t.calledOff = some k
        · obtain ⟨task', htask', howner⟩ := hcalled k hoff
          obtain rfl := Option.some.inj (htask.symm.trans htask')
          simp [Option.filter_some, hoff, howner, hne]
        · simpa [hoff] using rel_refl _

end Tasks

/-! ## What a step is to a controller -/

/-- A controller hears of something it has not brought about itself. -/
inductive Controller.Hears (c : Controller) : Controller → Prop
  | alarm : c.Hears c.alarm
  | told (messages : List Message) (h : ∀ y ∈ messages.filterMap Message.signal?, ¬y.Own) :
    c.Hears (c.told messages)

theorem Controller.Hears.refl (c : Controller) : c.Hears c := by
  have h : c.Hears (c.told []) := .told [] (by simp)
  rwa [c.told_nil] at h

namespace System

/-- What a step is to a controller: it hears of it at most, or takes its turn, or is told how a task
of its own ended. -/
inductive Concerns (s : System) (x : Stimulus) (i : Nat) (s' : System) (c' : Controller) : Prop
  | apart {b : Controller} (hb : s.controllers[i]? = some b ∨
      (s.controllers.length ≤ i ∧ ∃ plan ticket, b = .launch plan ticket))
    (hx : ∀ t, s.turn? x ≠ some (i, t)) (hc' : b.Hears c')
    (htasks : ∀ phase k,
      Option.Rel Task.Follows (taskOf? s.tasks i phase k) (taskOf? s'.tasks i phase k))
  | took {b : Controller} (hb : s.controllers[i]? = some b) (hx : x = .move (.take i))
    (hcan : b.canTake = true) (hc' : c' = (b.take i s.world).final s.tasks.length)
    (htasks : TurnsInto i (b.take i s.world) s.tasks s'.tasks)
  | resumed {b : Controller} {callback : Callback}
    {answer : Option (Awaited × Except Error Answer)} (hb : s.controllers[i]? = some b)
    (hx : x = .move (.resume i)) (hwake : b.wakeUp? s.world = some (callback, answer))
    (hc' : c' = (b.resume i s.world).final s.tasks.length)
    (htasks : TurnsInto i (b.resume i s.world) s.tasks s'.tasks)
  | joined {b : Controller} {k : Nat} {task : Task} {outcome : Except Failure Unit}
    (hb : s.controllers[i]? = some b) (hx : x = .move (.join k)) (htask : s.tasks[k]? = some task)
    (howner : task.owner = i) (hwatched : task.watched = true)
    (hended : task.outcome? = some outcome)
    (hc' : c' = b.told [.lifecycle (task.event outcome)])
    (htasks : s'.tasks = s.tasks.set k { task with watched := false })

variable {s s' : System} {x : Stimulus} {i : Nat} {c c' : Controller} {t : Turn} {phase : Phase}
  {happened : List Stimulus}

/-- Whoever makes a turn takes a message or goes on with its callback. -/
theorem turn?_cases (h : s.turn? x = some (i, t)) : ∃ c, s.controllers[i]? = some c ∧
    ((x = .move (.take i) ∧ c.canTake = true ∧ t = c.take i s.world) ∨
      (x = .move (.resume i) ∧ ∃ callback answer,
        c.wakeUp? s.world = some (callback, answer) ∧ t = c.resume i s.world)) := by
  unfold turn? at h
  split at h
  · obtain ⟨c, hc, he⟩ := Option.map_eq_some_iff.mp h
    obtain ⟨hc, htake⟩ := Option.filter_eq_some_iff.mp hc
    obtain ⟨rfl, rfl⟩ := Prod.mk.inj he
    exact ⟨c, hc, .inl ⟨rfl, htake, rfl⟩⟩
  · obtain ⟨c, hc, he⟩ := Option.map_eq_some_iff.mp h
    obtain ⟨hc, hresume⟩ := Option.filter_eq_some_iff.mp hc
    obtain ⟨rfl, rfl⟩ := Prod.mk.inj he
    obtain ⟨⟨callback, answer⟩, hwake⟩ := Option.isSome_iff_exists.mp hresume
    exact ⟨c, hc, .inr ⟨rfl, callback, answer, hwake, rfl⟩⟩
  · cases h

/-- A turn concerns the controller that makes it. -/
theorem Orderly.concerns_turn (ho : s.Orderly) {j : Nat} (hturn : s.turn? x = some (j, t))
    (heq : s' = s.apply x) (hc' : s'.controllers[i]? = some c') : s.Concerns x i s' c' := by
  obtain ⟨b, hb, ht, happly⟩ := turns_of_turn? hturn
  have ha := applies_applyTurn (t := t) (List.getElem?_eq_some_iff.mp hb).1
  rw [heq, happly] at hc' ⊢
  rcases ha.cases_controller hc' with ⟨rfl, hfinal⟩ | ⟨hj, hc'⟩
  · obtain ⟨b', hb', ⟨hx, hcan, rfl⟩ | ⟨hx, callback, answer, hwake, rfl⟩⟩ := turn?_cases hturn
    · exact .took hb' hx hcan hfinal ha.tasks
    · exact .resumed hb' hx hwake hfinal ha.tasks
  · refine .apart (.inl hc') (by simp [hturn, hj]) (.refl c') fun phase k => ?_
    exact rel_taskOf?_of_turn ha.tasks hj (ht.turned (ho.attended hb)).calledOff phase k

/-- What the container takes is no outcome of a callback, and a controller it begins is new. -/
theorem Orderly.concerns_receive (ho : s.Orderly) {r : Request} {rest : List Request}
    (hi : s.container.inbox = r :: rest) (hx : ∀ t, s.turn? x ≠ some (i, t))
    (hc' : s.receive.controllers[i]? = some c') :
    s.Concerns x i s.receive c' := by
  have hsound := ho.sound s.mirrors_trial
  have hhears := (s.mirrors_trial.receive hi).2 i
  rw [hc'] at hhears
  obtain ⟨b, hb, rfl⟩ := Option.map_eq_some_iff.mp hhears.symm
  refine .apart (b := b) ?_ hx (.told _ hsound.not_own) fun phase k =>
    (sparesTasks_receive s).tasks ▸ rel_refl _
  rw [List.getElem?_append] at hb
  split at hb
  · exact .inl hb
  · next hlen =>
      have hlaunched := List.mem_of_getElem? hb
      unfold launches at hlaunched
      split at hlaunched
      · split at hlaunched
        · exact .inr ⟨Nat.le_of_not_lt hlen, _, _, List.mem_singleton.mp hlaunched⟩
        · cases hlaunched
      · cases hlaunched

/-- How a task ended is told to its owner only. -/
theorem Joins.concerns {k : Nat} {task : Task} {outcome : Except Failure Unit}
    (hj : s.Joins task outcome k s') (hc' : s'.controllers[i]? = some c') :
    s.Concerns (.move (.join k)) i s' c' := by
  have htold := told_one hj.controllers i
  by_cases howner : i = task.owner
  · rw [if_pos howner, hc'] at htold
    obtain ⟨b, hb, rfl⟩ := Option.map_eq_some_iff.mp htold.symm
    exact .joined (howner ▸ hb) rfl hj.task howner.symm hj.watched hj.ended rfl hj.tasks
  · rw [if_neg howner, hc'] at htold
    refine .apart (.inl htold.symm) (by simp [turn?]) (.refl c') fun phase n => ?_
    unfold taskOf?
    rw [hj.tasks, List.getElem?_set]
    split
    · next hn =>
        subst hn
        have hne : task.owner ≠ i := Ne.symm howner
        rw [if_pos (List.getElem?_eq_some_iff.mp hj.task).1, hj.task]
        simp [Option.filter_some, hne]
    · exact rel_refl _

theorem Orderly.concerns (ho : s.Orderly) (hs : Step s x s') (heq : s' = s.apply x)
    (hc' : s'.controllers[i]? = some c') : s.Concerns x i s' c' := by
  cases hturn : s.turn? x with
  | some turn =>
      obtain ⟨j, t⟩ := turn
      exact ho.concerns_turn hturn heq hc'
  | none =>
      have hx : ∀ t, s.turn? x ≠ some (i, t) := by simp [hturn]
      have hstill : s.controllers[i]? = some c' → s'.tasks = s.tasks → s.Concerns x i s' c' :=
        fun hc htasks => .apart (.inl hc) hx (.refl c') fun phase k => htasks ▸ rel_refl _
      cases hs with
      | calm hcalm _ =>
          obtain ⟨c, hc, hn⟩ := hcalm.exists_controller hc'
          refine .apart (.inl hc) hx ?_ fun phase k => rel_taskOf? (hcalm.tasks k) i phase
          rcases hn with rfl | rfl
          · exact .refl _
          · exact .alarm
      | opened origin hst hu hw => exact hstill (hu.controllers ▸ hc') hu.tasks
      | asked origin o requests w ha =>
          have hsends := sends_sendAll { s with world := w } requests
          exact hstill (hsends.controllers ▸ hc') hsends.tasks
      | received r rest hserving hi => exact ho.concerns_receive hi hx hc'
      | finished hst hq =>
          exact hstill ((unmoved_finish s).controllers ▸ hc') (unmoved_finish s).tasks
      | took id c hc hcan => simp [turn?_take hc hcan] at hturn
      | resumed id c callback answer hc hwake => simp [turn?_resume hc hwake] at hturn
      | joined k task outcome hj => exact hj.concerns hc'

/-! ## What it adds to the course of a callback -/

/-- What is found behind the messages that were kept has arrived. -/
theorem arrivals_eq (front : List Message) {kept added : List Message}
    (hi : s.inboxOf i = front ++ kept) (hfront : front.length = s.taken x i)
    (hi' : (s.apply x).inboxOf i = kept ++ added) : s.arrivals x i = added := by
  have hlen : (s.inboxOf i).length - s.taken x i = kept.length := by
    rw [hi, List.length_append, hfront, Nat.add_sub_cancel_left]
  rw [arrivals, hi', hlen, List.drop_left]

theorem arrivals_of_nil (hi' : (s.apply x).inboxOf i = []) : s.arrivals x i = [] := by
  rw [arrivals, hi', List.drop_nil]

section Unturned

variable (hx : ∀ t, s.turn? x ≠ some (i, t))
include hx

theorem invoked?_eq_none : s.invoked? x i = none := by
  unfold invoked?
  split
  · next j =>
      split
      · next hj =>
          subst hj
          cases hc : s.controllers[j]? with
          | none => rfl
          | some c =>
              by_cases hcan : c.canTake = true
              · exact absurd (turn?_take hc hcan) (hx _)
              · simp [Option.filter_some, hcan]
      · rfl
  · rfl

theorem taken_eq_zero : s.taken x i = 0 := by
  unfold taken
  split
  · next j =>
      refine if_neg ?_
      rintro ⟨rfl, hmove⟩
      cases hc : s.controllers[j]? with
      | none => simp [canMove, hc] at hmove
      | some c => exact hx _ (turn?_take hc (by simpa [canMove, hc] using hmove))
  · rfl

theorem returned?_eq_none (phase : Phase) : s.returned? x i phase = none := by
  unfold returned?
  split
  · rw [invoked?_eq_none hx]
    rfl
  · next j =>
      split
      · next hj =>
          subst hj
          cases hc : s.controllers[j]? with
          | none => rfl
          | some c =>
              show c.cameBack? j phase s.world = none
              unfold Controller.cameBack?
              split
              · rfl
              · next hwake => exact absurd (turn?_resume hc hwake) (hx _)
      · rfl
  · rfl

/-- In a step that is not its turn, a controller can only be told something. -/
theorem milestones_unturned (phase : Phase) : s.milestones x i phase =
    (phase.outcomesIn (s.arrivals x i)).map .told := by
  simp [milestones, invoked?_eq_none hx, returned?_eq_none hx]

end Unturned

theorem milestones_take (hc : s.controllers[i]? = some c) (hcan : c.canTake = true)
    (phase : Phase) : s.milestones (.move (.take i)) i phase =
    (if c.invokes? s.world = some phase then
      .invoked :: (c.calledBack? i phase s.world).toList.map .returned else []) ++
    (phase.outcomesIn (s.arrivals (.move (.take i)) i)).map .told := by
  have hinvoked : s.invoked? (.move (.take i)) i = c.invokes? s.world := by
    simp [invoked?, hc, Option.filter_some, hcan]
  simp only [milestones, returned?, hinvoked, hc, Option.bind_some]
  split <;> rfl

theorem milestones_resume (hc : s.controllers[i]? = some c) {callback : Callback}
    {answer : Option (Awaited × Except Error Answer)}
    (hwake : c.wakeUp? s.world = some (callback, answer)) (phase : Phase) :
    s.milestones (.move (.resume i)) i phase =
    (if callback.phase = phase then
      (c.resumedBack? i s.world callback answer).toList.map .returned else []) ++
    (phase.outcomesIn (s.arrivals (.move (.resume i)) i)).map .told := by
  have hreturned : s.returned? (.move (.resume i)) i phase =
      if callback.phase = phase then c.resumedBack? i s.world callback answer else none := by
    simp [returned?, hc, Controller.cameBack?, hwake]
  simp only [milestones, invoked?, hreturned, reduceCtorEq, if_false, List.nil_append]
  by_cases hphase : callback.phase = phase <;> simp [hphase]

theorem taken_take (hc : s.controllers[i]? = some c) (hcan : c.canTake = true) :
    s.taken (.move (.take i)) i = 1 := by
  simp [taken, canMove, hc, hcan]

/-- What a controller adds to its own inbox in its turn has arrived, unless it ends. -/
theorem arrivals_turn (front : List Message) {kept added : List Message}
    (hc : s.controllers[i]? = some c) (hx : s.turn? x = some (i, t)) (hi : c.inbox = front ++ kept)
    (hfront : front.length = s.taken x i) (hi' : t.controller.inbox = kept ++ added) :
    s.arrivals x i = if t.controller.ended then [] else added := by
  obtain ⟨b, hb, ht, happly⟩ := turns_of_turn? hx
  have hlt := (List.getElem?_eq_some_iff.mp hb).1
  have hfinal : (s.apply x).controllers[i]? = some (t.final s.tasks.length) := by
    rw [happly, (applies_applyTurn (t := t) hlt).controllers]
    simp [hlt]
  have hinbox := inboxOf_eq hfinal
  rw [t.final_inbox] at hinbox
  split
  · next hended => exact arrivals_of_nil (by simpa [hended] using hinbox)
  · next hended =>
      exact arrivals_eq front ((inboxOf_eq hc).trans hi) hfront
        (by simpa [hended, hi'] using hinbox)

/-- What a controller is told, unless it has ended, has arrived. -/
theorem arrivals_told {messages : List Message} (hx : ∀ t, s.turn? x ≠ some (i, t))
    (hi : s.inboxOf i = c.inbox) (hc' : (s.apply x).controllers[i]? = some (c.told messages)) :
    s.arrivals x i = if c.ended then [] else messages := by
  have hinbox := inboxOf_eq hc'
  have happend : ∀ added, (c.told messages).inbox = c.inbox ++ added → s.arrivals x i = added :=
    fun added h => arrivals_eq [] hi (by simp [taken_eq_zero hx]) (hinbox.trans h)
  split
  · next hended => exact happend [] (by simp [Controller.told, hended])
  · next hended => exact happend messages (by simp [Controller.told, hended])

end System

/-! ## Outcomes among messages -/

theorem Phase.outcomesIn_eq_nil {phase : Phase} {messages : List Message}
    (h : ∀ y ∈ messages.filterMap Message.signal?, ¬phase.Outcome y) :
    phase.outcomesIn messages = [] := by
  rw [outcomesIn, List.filter_eq_nil_iff]
  intro e he
  obtain ⟨m, hm, hme⟩ := List.mem_filterMap.mp he
  cases m with
  | lifecycle e' =>
      obtain rfl := Option.some.inj hme
      simpa using h e'.signal (List.mem_filterMap.mpr ⟨_, hm, rfl⟩)
  | reference u => cases hme

theorem Phase.outcomesIn_event {phase : Phase} {e : Event} (h : phase.Outcome e.signal) :
    phase.outcomesIn [.lifecycle e] = [e] := by
  simp [outcomesIn, Message.event?, h]

/-- A callback is not told of by the outcome of the other one. -/
theorem Phase.Outcome.eq_of {phase phase' : Phase} {x : Signal} (h : phase.Outcome x)
    (h' : phase'.Outcome x) : phase = phase' := by
  cases phase <;> cases phase' <;> simp_all [Outcome]

namespace System

variable {s : System} {x : Stimulus} {i : Nat} {b c' : Controller} {phase : Phase}

/-- A step a controller only hears of adds nothing to the course of its callbacks. -/
theorem milestones_apart (hx : ∀ t, s.turn? x ≠ some (i, t)) (hi : s.inboxOf i = b.inbox)
    (hc' : (s.apply x).controllers[i]? = some c') (hears : b.Hears c') (phase : Phase) :
    s.milestones x i phase = [] := by
  have harrivals : ∀ y ∈ (s.arrivals x i).filterMap Message.signal?, ¬y.Own := by
    cases hears with
    | alarm =>
        have hnone : s.arrivals x i = [] :=
          arrivals_eq [] hi (by simp [taken_eq_zero hx])
            (by simp [inboxOf_eq hc', Controller.alarm])
        simp [hnone]
    | told messages h =>
        rw [arrivals_told hx hi hc']
        split
        · simp
        · exact h
  rw [milestones_unturned hx, Phase.outcomesIn_eq_nil fun y hy ho => harrivals y hy ho.own]
  rfl

end System

end ServiceHost
