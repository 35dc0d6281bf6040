import ServiceHost.Proofs.System.Accounts

/-! # Accounts are kept along runs

A callback is invoked when its controller takes a message, it goes on when that is resumed, and its
work ends when a task is joined. In each of these steps, and in all others, what is seen of the
callback stays in order. -/

namespace ServiceHost

variable {tasks tasks' : List Task} {cut cut' : Prop} {i : Nat} {phase : Phase} {c c' : Controller}
  {course : List Milestone} {t : Turn} {task : Task} {k : Nat}

theorem Controller.call_of_invokes? {w : World} (h : c.invokes? w = some phase) :
    c.effects.findSome? Effect.call? = some phase := by
  unfold invokes? at h
  split at h
  · next hcall _ =>
      split at h
      · rw [hcall, h]
      · cases h
  · exact h

/-- However another callback comes back, it tells nothing of this one. -/
theorem Came.apart {phase' : Phase} {inbox : List Message} {deferred : Option (Phase × Completion)}
    (h : Came phase' inbox c deferred) (hne : phase' ≠ phase) :
    ∃ added, c.inbox = inbox ++ added ∧
      (∀ y ∈ added.filterMap Message.signal?, ¬phase.Outcome y) ∧
      c.underway? phase = none ∧ ∀ left, deferred = some left → left.1 ≠ phase := by
  cases h with
  | suspended callback hc hp hi =>
      exact ⟨[], by simpa using hi, by simp, Controller.underway?_of_ne hc (hp.trans_ne hne),
        by simp⟩
  | returned e he hc hi =>
      refine ⟨_, hi, ?_, Controller.underway?_of_idle hc phase, by simp⟩
      intro y hy ho
      obtain rfl : y = e.signal := by simpa [Message.signal?] using hy
      exact hne (he.eq_of ho)
  | deferred work hc hi =>
      refine ⟨[], by simpa using hi, by simp, Controller.underway?_of_idle hc phase, ?_⟩
      rintro left hleft
      obtain rfl := Option.some.inj hleft
      exact hne

section Take

variable {rest : List Message} {next : State} {effects : List Effect} {e : Event} {w : World}

/-- A move that does not call a callback, and does not take its place, tells nothing of it. -/
theorem Turn.Moved.apart (ht : t.Moved w c rest next effects)
    (hm : Moves c.interruptible c.state e.signal next effects)
    (hcall : effects.findSome? Effect.call? ≠ some phase)
    (hfail : ¬(phase = .stop ∧ effects = [.failStart .failed, .emitStopped])) :
    ∃ added, t.controller.inbox = rest ++ added ∧
      (∀ y ∈ added.filterMap Message.signal?, ¬phase.Outcome y) ∧
      t.controller.underway? phase = none ∧ ∀ left, t.deferred = some left → left.1 ≠ phase := by
  have hleft := ht.left
  split at hleft
  · next phase' hcall' =>
      refine hleft.apart ?_
      rintro rfl
      exact hcall hcall'
  · obtain ⟨hi, hc, hd⟩ := hleft
    refine ⟨_, hi, ?_, Controller.underway?_of_idle hc phase, by simp [hd]⟩
    intro y hy
    obtain ⟨message, hmessage, hsignal⟩ := List.mem_filterMap.mp hy
    obtain ⟨e', he', rfl⟩ := List.mem_map.mp hmessage
    obtain rfl := Option.some.inj hsignal
    exact hm.emits hfail e' he'

/-- A move without effects only leads to another state. -/
theorem Controller.take_noted (hi : c.inbox = .lifecycle e :: rest)
    (hm : Moves c.interruptible c.state e.signal next []) (id : Nat) (w : World) :
    (c.take id w).controller = { c with inbox := rest, state := next } := by
  rw [take_eq hi hm id w]
  exact (Turn.closes_report (.begin w { c with inbox := rest, state := next }) _ _).controller

/-- A callback is carried through the moves that do not call it and do not take its place. -/
theorem Account.carries_take (h : Account tasks cut i phase c course) (hcut : cut → cut')
    (hcut' : phase = .start → .invokeStop true ∈ c.effects →
      (∃ work, c.asks? phase = some (work, true)) → cut')
    (hi : c.inbox = .lifecycle e :: rest) (hc : c.callback = none)
    (hm : Moves c.interruptible c.state e.signal next c.effects)
    (ht : (c.take i w).Moved w c rest next c.effects)
    (hcall : c.effects.findSome? Effect.call? ≠ some phase)
    (hfail : ¬(phase = .stop ∧ c.effects = [.failStart .failed, .emitStopped]))
    (htasks : TurnsInto i (c.take i w) tasks tasks') :
    Carries cut' i phase tasks tasks' c ((c.take i w).final tasks.length) := by
  obtain ⟨added, hinbox, hadded, hfree, hdeferred⟩ := ht.apart hm hcall hfail
  have hfirst : c.Untold phase → ¬phase.Outcome e.signal := by
    intro hu
    refine hu _ ?_
    rw [c.signals_cons hi]
    simp [Message.signal?]
  refine ⟨?_, ?_, ?_, fun hu => ?_, fun hu hin => ?_, goes_of_turn htasks hdeferred ?_⟩
  · rw [Turn.final_plan, ht.plan]
  · rw [Turn.final_state, ht.state]
    exact hm.phase_le
  · rw [Turn.final_underway?, hfree, Controller.underway?_of_idle hc]
  · refine Turn.final_untold fun x hx => ?_
    rw [Controller.signals, hinbox, List.filterMap_append, List.mem_append] at hx
    refine hx.elim (fun hx => hu x ?_) (hadded x)
    rw [c.signals_cons hi]
    exact List.mem_append_right _ hx
  · obtain ⟨rfl, ⟨heffects, hin'⟩ | ⟨-, heffects⟩⟩ := hm.in_untold hin (hfirst hu)
    · have hcontroller := Controller.take_noted hi (heffects ▸ hm) i w
      have hidle : (c.take i w).deferred = none := by
        have hleft := ht.left
        rw [heffects] at hleft
        exact hleft.2.2
      refine .inl ⟨?_, ?_, ?_⟩
      · rw [Turn.final_state, ht.state]
        exact hin'
      · simp only [Turn.final, hidle, hcontroller]
        split <;> rfl
      · rw [Turn.final_interruptible, hcontroller]
    · refine .inr fun {k task} hpending htask => ?_
      have hcalled := ht.called
      rw [heffects] at hcalled
      have hoff : (c.take i w).calledOff = c.pending := hcalled.1
      rw [taskOf?_of_turn htasks] at htask
      split at htask
      · obtain ⟨left, hleft, -⟩ := Option.map_eq_some_iff.mp htask
        obtain ⟨hleft, hphase⟩ := Option.filter_eq_some_iff.mp hleft
        exact absurd (by simpa using hphase) (hdeferred left hleft)
      · obtain ⟨task₀, -, rfl⟩ := Option.map_eq_some_iff.mp htask
        rw [if_pos (hoff.trans hpending)]
  · -- a task that is called off is that of a start which is cut short
    intro k task hoff htask hwatched
    obtain ⟨-, -, -, hu, hwanted, hunwanted⟩ := h.pending_of htask hwatched
    cases hun : task.unwanted with
    | true => exact hcut (hunwanted hun)
    | false =>
        obtain ⟨hin, hasks⟩ := hwanted hun
        obtain ⟨rfl, ⟨heffects, -⟩ | ⟨hi, heffects⟩⟩ := hm.in_untold hin (hfirst hu)
        · have hcalled := ht.called
          rw [heffects] at hcalled
          rw [hcalled.1] at hoff
          cases hoff
        · exact hcut' rfl (by simp [heffects]) ⟨task.work, hi ▸ hasks rfl⟩

/-- A controller takes a message, and what is seen of a callback is in order then. -/
def TakesInOrder (tasks tasks' : List Task) (cut : Prop) (i : Nat) (phase : Phase) (c : Controller)
    (course : List Milestone) (w : World) : Prop :=
  ∃ message kept added, c.inbox = message :: kept ∧
    (c.take i w).controller.inbox = kept ++ added ∧
    Account tasks' cut i phase ((c.take i w).final tasks.length)
      (course ++ ((if c.invokes? w = some phase then
        .invoked :: (c.calledBack? i phase w).toList.map .returned else []) ++
      (phase.outcomesIn (if (c.take i w).controller.ended then [] else added)).map .told))

/-- The message means nothing. -/
theorem Account.take_idle {message : Message} (h : Account tasks cut i phase c course)
    (hlive : c.ended = false) (hcut : cut → cut') (hi : c.inbox = message :: rest)
    (heffects : c.effects = []) (ht : (c.take i w).Skipped w c rest)
    (htasks : TurnsInto i (c.take i w) tasks tasks') :
    TakesInOrder tasks tasks' cut' i phase c course w := by
  have hfinal : (c.take i w).final tasks.length = { c with inbox := rest } := by
    simp [Turn.final, ht.controller, ht.deferred, hlive]
  have hinvokes : c.invokes? w ≠ some phase := by
    intro hinvokes
    simpa [heffects] using Controller.call_of_invokes? hinvokes
  refine ⟨message, rest, [], hi, by simp [ht.controller], ?_⟩
  rw [if_neg hinvokes, ite_self, Phase.outcomesIn_eq_nil (by simp), hfinal]
  simp only [List.map_nil, List.append_nil]
  refine h.carries hcut ⟨rfl, Nat.le_refl _, rfl, fun hu x hx => hu x ?_,
    fun _ hin => .inl ⟨hin, rfl, rfl⟩, goes_of_turn htasks (by simp [ht.deferred])
    (by simp [ht.calledOff])⟩
  rw [c.signals_cons hi]
  exact List.mem_append_right _ hx

/-- The callback is called, unless a slot refused its value. -/
theorem Account.take_called (h : Account tasks cut i phase c course)
    (hi : c.inbox = .lifecycle e :: rest) (hc : c.callback = none)
    (hm : Moves c.interruptible c.state e.signal next c.effects)
    (ht : (c.take i w).Moved w c rest next c.effects)
    (hcall : c.effects.findSome? Effect.call? = some phase)
    (hended : (c.take i w).controller.ended = false)
    (htasks : TurnsInto i (c.take i w) tasks tasks') :
    TakesInOrder tasks tasks' cut' i phase c course w := by
  obtain ⟨rfl, hu, hnone⟩ := h.idle_of (hm.call_unreached hcall)
  have hrest : ∀ y ∈ rest.filterMap Message.signal?, ¬phase.Outcome y := fun y hy =>
    hu y (by rw [c.signals_cons hi]; exact List.mem_append_right _ hy)
  have hin : phase.In (c.take i w).controller.state := ht.state ▸ hm.call_in hcall
  rcases c.comes_take hi hc hm hcall i w with ⟨hinvokes, hcomes⟩ | ⟨rfl, hinvokes, hrefused⟩
  · have hplan : (c.take i w).controller.asks? phase = c.asks? phase :=
      Controller.asks?_congr ht.plan phase
    obtain ⟨added, hinbox, haccount⟩ :=
      account_comes cut' hnone htasks hended hin hrest (by rw [hplan]; exact hcomes)
    refine ⟨_, rest, added, hi, hinbox, ?_⟩
    rw [if_pos hinvokes, hended]
    exact haccount
  · obtain ⟨failure, hinbox⟩ := hrefused.told
    have houtcome : Phase.start.outcomesIn [.lifecycle (.startFailed failure)] =
        [.startFailed failure] :=
      Phase.outcomesIn_event (Phase.outcome_event .start (.error failure))
    refine ⟨_, rest, _, hi, hinbox, ?_⟩
    rw [hinvokes, hended, if_neg (by simp), if_neg (by simp), houtcome]
    exact account_spared cut' failure hnone htasks hrefused.deferred hin.reached hrefused.idle

/-- After a start that failed there is nothing to stop. -/
theorem Account.take_failed (h : Account tasks cut i .stop c course) (hlive : c.ended = false)
    (hi : c.inbox = .lifecycle e :: rest)
    (hm : Moves c.interruptible c.state e.signal next c.effects)
    (ht : (c.take i w).Moved w c rest next c.effects)
    (heffects : c.effects = [.failStart .failed, .emitStopped])
    (htasks : TurnsInto i (c.take i w) tasks tasks') :
    TakesInOrder tasks tasks' cut' i .stop c course w := by
  obtain ⟨hsignal, rfl, hreached⟩ := hm.fail_unreached heffects
  obtain ⟨rfl, -, hnone⟩ := h.idle_of hreached
  obtain ⟨failure, rfl⟩ : ∃ failure, e = .startFailed failure := by
    cases e <;> simp [Event.signal] at hsignal ⊢
  have hinvokes : c.invokes? w ≠ some .stop := by
    intro hinvokes
    have hcall := Controller.call_of_invokes? hinvokes
    rw [heffects] at hcall
    cases hcall
  have hended : (c.take i w).controller.ended = false := by
    rw [ht.ended, hlive, heffects]
    rfl
  have hleft := ht.left
  rw [heffects] at hleft
  obtain ⟨hinbox, hfree, hd⟩ := hleft
  refine ⟨_, rest, _, hi, hinbox, ?_⟩
  rw [if_neg hinvokes, hended]
  exact account_spared cut' failure hnone htasks hd (ht.state ▸ Nat.le_refl _) hfree

/-- The message is about something else. -/
theorem Account.take_apart (h : Account tasks cut i phase c course) (hcut : cut → cut')
    (hcut' : phase = .start → .invokeStop true ∈ c.effects →
      (∃ work, c.asks? phase = some (work, true)) → cut')
    (hi : c.inbox = .lifecycle e :: rest) (hc : c.callback = none)
    (hm : Moves c.interruptible c.state e.signal next c.effects)
    (ht : (c.take i w).Moved w c rest next c.effects)
    (hcall : c.effects.findSome? Effect.call? ≠ some phase)
    (hfail : ¬(phase = .stop ∧ c.effects = [.failStart .failed, .emitStopped]))
    (htasks : TurnsInto i (c.take i w) tasks tasks') :
    TakesInOrder tasks tasks' cut' i phase c course w := by
  obtain ⟨added, hinbox, hadded, -⟩ := ht.apart hm hcall hfail
  have hinvokes : c.invokes? w ≠ some phase := fun h => hcall (Controller.call_of_invokes? h)
  have hnone : phase.outcomesIn (if (c.take i w).controller.ended then [] else added) = [] := by
    refine Phase.outcomesIn_eq_nil fun y hy => ?_
    split at hy
    · cases hy
    · exact hadded y hy
  refine ⟨_, rest, added, hi, hinbox, ?_⟩
  rw [if_neg hinvokes, hnone]
  simp only [List.map_nil, List.append_nil]
  exact h.carries hcut (h.carries_take hcut hcut' hi hc hm ht hcall hfail htasks)

/-- What was seen of a callback stays in order when its controller takes a message. -/
theorem Account.take (h : Account tasks cut i phase c course) (hcan : c.canTake = true)
    (hcut : cut → cut') (hcut' : phase = .start → .invokeStop true ∈ c.effects →
      (∃ work, c.asks? phase = some (work, true)) → cut')
    (htasks : TurnsInto i (c.take i w) tasks tasks') :
    TakesInOrder tasks tasks' cut' i phase c course w := by
  have hlive := Controller.ended_of_canTake hcan
  rcases c.take_cases hcan i w with ⟨message, rest, hi, -, heffects, ht⟩ |
    ⟨e, rest, next, hi, hc, hm, ht⟩
  · exact h.take_idle hlive hcut hi heffects ht htasks
  · by_cases hcall : c.effects.findSome? Effect.call? = some phase
    · have hended : (c.take i w).controller.ended = false := by
        rw [ht.ended, hlive, Bool.false_or, decide_eq_false_iff_not]
        intro hterm
        rw [hm.call_of_terminate hterm] at hcall
        cases hcall
      exact h.take_called hi hc hm ht hcall hended htasks
    · by_cases hfail : phase = .stop ∧ c.effects = [.failStart .failed, .emitStopped]
      · obtain ⟨rfl, heffects⟩ := hfail
        exact h.take_failed hlive hi hm ht heffects htasks
      · exact h.take_apart hcut hcut' hi hc hm ht hcall hfail htasks

end Take

/-- What was seen of a callback stays in order when a suspended one goes on. -/
theorem Account.resume {callback : Callback} {answer : Option (Awaited × Except Error Answer)}
    {w : World} (h : Account tasks cut i phase c course) (ha : Attended i c tasks)
    (hwake : c.wakeUp? w = some (callback, answer)) (hcut : cut → cut')
    (htasks : TurnsInto i (c.resume i w) tasks tasks') :
    ∃ added, (c.resume i w).controller.inbox = c.inbox ++ added ∧
      Account tasks' cut' i phase ((c.resume i w).final tasks.length)
        (course ++ ((if callback.phase = phase then
          (c.resumedBack? i w callback answer).toList.map .returned else []) ++
        (phase.outcomesIn (if (c.resume i w).controller.ended then [] else added)).map .told)) := by
  have ht := Controller.resume_resumed hwake i
  have hcallback := Controller.callback_of_wakeUp? hwake
  have hin := ha.callback callback hcallback
  have hended : (c.resume i w).controller.ended = false := by
    rw [ht.alike.ended]
    exact ha.live hin
  rw [hended]
  by_cases hphase : callback.phase = phase
  · subst hphase
    have hrunning := Controller.underway?_of_eq hcallback rfl
    have hcomes := c.comes_resume hwake i
    have hplan : (c.resume i w).controller.asks? callback.phase = c.asks? callback.phase :=
      Controller.asks?_congr ht.alike.plan callback.phase
    cases h.stage with
    | idle hf | spared _ _ hf | pending _ _ _ _ hf | calledOff _ _ _ hf | told _ _ hf =>
        rw [hrunning] at hf
        cases hf
    | running hreached hrun hu =>
        have hasks := Option.some.inj (hrunning.symm.trans hrun)
        have hnone : ∀ k, taskOf? tasks i callback.phase k = none := by
          intro k
          refine Option.eq_none_iff_forall_ne_some.mpr fun task htask => ?_
          simpa using (h.works htask).1
        rw [hasks, ← hplan] at hcomes
        obtain ⟨added, hinbox, haccount⟩ := account_comes cut' hnone htasks hended
          (ht.alike.state ▸ hin) hu hcomes
        refine ⟨added, hinbox, ?_⟩
        rw [if_pos rfl]
        exact haccount
  · -- another callback goes on
    obtain ⟨added, hinbox, hadded, hfree, hdeferred⟩ := ht.came.apart hphase
    refine ⟨added, hinbox, ?_⟩
    rw [if_neg hphase, if_neg (by simp), Phase.outcomesIn_eq_nil hadded]
    simp only [List.map_nil, List.append_nil]
    refine h.carries hcut ⟨?_, ?_, ?_, fun hu => ?_, fun _ hin' => ?_,
      goes_of_turn htasks hdeferred (by simp [ht.calledOff])⟩
    · rw [Turn.final_plan, ht.alike.plan]
    · rw [Turn.final_state]
      exact Nat.le_of_eq (congrArg _ ht.alike.state.symm)
    · rw [Turn.final_underway?, hfree, Controller.underway?_of_ne hcallback hphase]
    · refine Turn.final_untold fun x hx => ?_
      rw [Controller.signals, hinbox, List.filterMap_append, List.mem_append] at hx
      exact hx.elim (hu x) (hadded x)
    · exact absurd (hin.eq_of hin') hphase

theorem taskOf?_set (htask : tasks[k]? = some task) (howner : task.owner = i) (phase : Phase)
    (n : Nat) : taskOf? (tasks.set k { task with watched := false }) i phase n =
      if n = k ∧ task.phase = phase then some { task with watched := false }
      else taskOf? tasks i phase n := by
  rw [taskOf?, List.getElem?_set]
  by_cases hn : n = k
  · subst hn
    rw [if_pos rfl, if_pos (List.getElem?_eq_some_iff.mp htask).1, taskOf?, htask]
    by_cases hphase : task.phase = phase <;> simp [Option.filter_some, howner, hphase]
  · rw [if_neg (Ne.symm hn), if_neg fun h => hn h.1]
    rfl

/-- A task whose controller has ended tells nobody how it ended. -/
theorem Account.join_unheard {outcome : Except Failure Unit}
    (h : Account tasks cut i task.phase c course) (htask : tasks[k]? = some task)
    (howner : task.owner = i) (hun : task.unwanted = true) (hc : c.ended = true)
    (hcut : cut → cut') : Account (tasks.set k { task with watched := false }) cut' i task.phase
      (c.told [.lifecycle (task.event outcome)]) course := by
  have hof : taskOf? tasks i task.phase k = some task := taskOf?_eq_some.mpr ⟨htask, howner, rfl⟩
  have hsame : c.told [.lifecycle (task.event outcome)] = c := by simp [Controller.told, hc]
  rw [hsame]
  refine h.carries hcut ⟨rfl, Nat.le_refl _, rfl, id, fun _ hin => .inl ⟨hin, rfl, rfl⟩,
    fun n => ?_⟩
  rw [taskOf?_set htask howner task.phase]
  split
  · next hn =>
      rw [hn.1, hof]
      exact .some ⟨rfl, .inr ⟨hun, rfl⟩, .inl rfl, id⟩
  · exact Task.Goes.of_rel (rel_refl _)

/-- A controller is told how the work ended that a callback was complete after. -/
theorem Account.join_told {outcome : Except Failure Unit}
    (h : Account tasks cut i task.phase c [.invoked, .returned (.ok ())])
    (htask : tasks[k]? = some task) (howner : task.owner = i)
    (hended : task.outcome? = some outcome) (hreached : task.phase.Reached c.state)
    (hfree : c.underway? task.phase = none) :
    Account (tasks.set k { task with watched := false }) cut' i task.phase
      (c.told [.lifecycle (task.event outcome)])
      [.invoked, .returned (.ok ()), .told (task.event outcome)] := by
  have hof : taskOf? tasks i task.phase k = some task := taskOf?_eq_some.mpr ⟨htask, howner, rfl⟩
  obtain ⟨-, hends, interruptible, hasks⟩ := h.works hof
  have hreached' : task.phase.Reached (c.told [.lifecycle (task.event outcome)]).state := by
    rwa [c.told_state]
  have hfree' : (c.told [.lifecycle (task.event outcome)]).underway? task.phase = none := by
    rwa [Controller.underway?, c.told_callback]
  have hasks' := (Controller.asks?_congr
    (c.told_plan [.lifecycle (task.event outcome)]) task.phase).trans hasks
  generalize c.told [.lifecycle (task.event outcome)] = c' at hreached' hfree' hasks' ⊢
  have hverdict : task.event outcome =
      task.phase.event (task.phase.verdict (c'.asks? task.phase) (.ok ())) := by
    rw [task.event_eq, hends outcome hended, hasks']
    rfl
  have hjoined : ∀ {n task'}, taskOf? (tasks.set k { task with watched := false }) i
      task.phase n = some task' → n = k ∧ task' = { task with watched := false } := by
    intro n task' hn
    rw [taskOf?_set htask howner task.phase] at hn
    split at hn
    · next hk => exact ⟨hk.1, (Option.some.inj hn).symm⟩
    · next hk => exact absurd ⟨h.single hn hof, rfl⟩ hk
  rw [hverdict]
  refine ⟨.told (.ok ()) hreached' hfree' fun hn => ?_, fun hn => ?_,
    fun hn hn' => (hjoined hn).1.trans (hjoined hn').1.symm⟩
  · rw [(hjoined hn).2]
  · rw [(hjoined hn).2]
    exact ⟨by simp, hends, interruptible, hasks'⟩

/-- What was seen of a callback stays in order when a task of its controller has ended. -/
theorem Account.join {outcome : Except Failure Unit} (h : Account tasks cut i phase c course)
    (htask : tasks[k]? = some task) (howner : task.owner = i) (hwatched : task.watched = true)
    (hended : task.outcome? = some outcome) (hlive : phase.In c.state → c.ended = false)
    (hcut : cut → cut') : Account (tasks.set k { task with watched := false }) cut' i phase
      (c.told [.lifecycle (task.event outcome)])
      (course ++ (phase.outcomesIn (if c.ended then []
        else [.lifecycle (task.event outcome)])).map .told) := by
  have hevent := System.event_own task outcome
  by_cases hphase : task.phase = phase
  · subst hphase
    have hof : taskOf? tasks i task.phase k = some task := taskOf?_eq_some.mpr ⟨htask, howner, rfl⟩
    obtain ⟨rfl, hreached, hfree, hu, hwanted, hunwanted⟩ := h.pending_of hof hwatched
    cases hc : c.ended with
    | true =>
        have hun : task.unwanted = true := by
          by_contra hun
          rw [Bool.not_eq_true] at hun
          simp [hlive (hwanted hun).1] at hc
        rw [if_pos rfl, Phase.outcomesIn_eq_nil (by simp)]
        exact h.join_unheard htask howner hun hc hcut
    | false =>
        rw [if_neg (by simp), Phase.outcomesIn_event hevent]
        exact h.join_told htask howner hended hreached hfree
  · -- the other callback is told of
    rw [Phase.outcomesIn_eq_nil]
    · simp only [List.map_nil, List.append_nil]
      refine h.carries hcut (carries_told (fun y hy ho => hphase ?_) fun n => ?_)
      · obtain rfl : y = (task.event outcome).signal := by simpa [Message.signal?] using hy
        exact hevent.eq_of ho
      · rw [taskOf?_set htask howner phase, if_neg fun hn => hphase hn.2]
        exact Task.Goes.of_rel (rel_refl _)
    · intro y hy ho
      split at hy
      · cases hy
      · obtain rfl : y = (task.event outcome).signal := by simpa [Message.signal?] using hy
        exact hphase (hevent.eq_of ho)

/-! ## Runs -/

namespace System

variable {s s' : System} {x : Stimulus} {happened : List Stimulus}

/-- A start of a controller was cut short. -/
def StartCut (happened : List Stimulus) (i : Nat) (phase : Phase) : Prop :=
  phase = .start ∧ .invokeStop true ∈ initial.trace happened i

/-- A start was cut short, and had asked for work that may be called off. -/
def CutAsAsked (happened : List Stimulus) (i : Nat) (phase : Phase) (c : Controller) : Prop :=
  StartCut happened i phase ∧ ∃ work, c.asks? phase = some (work, true)

/-- What was seen of all callbacks is in order. -/
structure AllAccounted (happened : List Stimulus) : Prop where
  known : ∀ {i : Nat} {c : Controller}, (initial.run happened).controllers[i]? = some c →
    ∀ phase, Account (initial.run happened).tasks (CutAsAsked happened i phase c) i phase c
      (initial.course happened i phase)
  unknown : ∀ {i : Nat}, (initial.run happened).controllers.length ≤ i →
    ∀ phase, initial.course happened i phase = []

theorem StartCut.snoc (h : StartCut happened i phase) (x : Stimulus) :
    StartCut (happened ++ [x]) i phase :=
  ⟨h.1, by rw [trace_snoc]; exact List.mem_append_left _ h.2⟩

theorem CutAsAsked.snoc (h : CutAsAsked happened i phase c) (hplan : c'.plan = c.plan)
    (x : Stimulus) : CutAsAsked (happened ++ [x]) i phase c' :=
  ⟨h.1.snoc x, by rw [Controller.asks?_congr hplan]; exact h.2⟩

/-- What there is to be seen of a callback before its controller is there: nothing. -/
theorem AllAccounted.begins (h : AllAccounted happened) (hx : ∀ y ∈ happened, y ≠ .cancel)
    (hlen : (initial.run happened).controllers.length ≤ i) (plan : Plan) (ticket : Ticket)
    (phase : Phase) : Account (initial.run happened).tasks
      (CutAsAsked happened i phase (.launch plan ticket)) i phase (.launch plan ticket)
      (initial.course happened i phase) := by
  have hvacant : ∀ {k task}, taskOf? (initial.run happened).tasks i phase k ≠ some task := by
    intro k task hk
    obtain ⟨hk, howner, -⟩ := taskOf?_eq_some.mp hk
    exact absurd (howner ▸ owner_lt_run hx task (List.mem_of_getElem? hk)) (Nat.not_lt.mpr hlen)
  rw [h.unknown hlen phase]
  refine ⟨.idle rfl ?_, fun hk => absurd hk hvacant, fun hk => absurd hk hvacant⟩
  intro y hy
  cases hy

/-- Nothing is seen of the callbacks of a controller that is not there. -/
theorem AllAccounted.step_unknown (h : AllAccounted happened) (ho : (initial.run happened).Orderly)
    (hs : Step (initial.run happened) x (initial.run (happened ++ [x])))
    (hlen : (initial.run (happened ++ [x])).controllers.length ≤ i) (phase : Phase) :
    initial.course (happened ++ [x]) i phase = [] := by
  have hlen₀ := Nat.le_trans (ho.supplying hs).length hlen
  have hturn : ∀ t, (initial.run happened).turn? x ≠ some (i, t) := by
    intro t ht
    obtain ⟨c, hc, -⟩ := turn?_cases ht
    rw [List.getElem?_eq_none hlen₀] at hc
    cases hc
  rw [run_snoc initial happened x] at hlen
  rw [course_snoc, h.unknown hlen₀ phase, milestones_unturned hturn,
    arrivals_of_nil (inboxOf_of_none (List.getElem?_eq_none hlen))]
  rfl

theorem AllAccounted.step (h : AllAccounted happened) (hx : ∀ y ∈ happened, y ≠ .cancel)
    (ho : (initial.run happened).Orderly)
    (hs : Step (initial.run happened) x (initial.run (happened ++ [x]))) :
    AllAccounted (happened ++ [x]) := by
  have happly := run_snoc initial happened x
  refine ⟨fun {i c'} hc' phase => ?_, fun hlen phase => h.step_unknown ho hs hlen phase⟩
  have hconcerns := ho.concerns hs happly hc'
  rw [course_snoc]
  rw [happly] at hc'
  cases hconcerns with
  | @apart b hb hx' hears htasks =>
      obtain ⟨haccount, hinbox⟩ : Account (initial.run happened).tasks
          (CutAsAsked happened i phase b) i phase b (initial.course happened i phase) ∧
            (initial.run happened).inboxOf i = b.inbox := by
        rcases hb with hb | ⟨hlen, plan, ticket, rfl⟩
        · exact ⟨h.known hb phase, inboxOf_eq hb⟩
        · exact ⟨h.begins hx hlen plan ticket phase,
            inboxOf_of_none (List.getElem?_eq_none hlen)⟩
      rw [milestones_apart hx' hinbox hc' hears, List.append_nil]
      have hcarries :
          ServiceHost.Carries (CutAsAsked (happened ++ [x]) i phase c') i phase _ _ b c' :=
        hears.carries (htasks phase)
      exact haccount.carries (·.snoc hcarries.plan x) hcarries
  | @took b hb hx' hcan heq htasks =>
      subst hx' heq
      have hplan :=
        plan_take hcan i (initial.run happened).tasks.length (initial.run happened).world
      have hcut : phase = .start → .invokeStop true ∈ b.effects →
          (∃ work, b.asks? phase = some (work, true)) → CutAsAsked (happened ++ [.move (.take i)])
            i phase ((b.take i (initial.run happened).world).final
              (initial.run happened).tasks.length) := by
        refine fun hp he hasks => ⟨⟨hp, ?_⟩, by rwa [Controller.asks?_congr hplan]⟩
        rw [trace_snoc, effects_take hb hcan]
        exact List.mem_append_right _ he
      obtain ⟨message, kept, added, hi, hinbox, haccount⟩ :=
        (h.known hb phase).take hcan (·.snoc hplan _) hcut htasks
      rw [milestones_take hb hcan,
        arrivals_turn [message] hb (turn?_take hb hcan) hi (taken_take hb hcan).symm hinbox]
      exact haccount
  | @resumed b callback answer hb hx' hwake heq htasks =>
      subst hx' heq
      have hplan := (Turn.final_plan _ (initial.run happened).tasks.length).trans
        (Controller.resume_resumed hwake i).alike.plan
      obtain ⟨added, hinbox, haccount⟩ := (h.known hb phase).resume (ho.attended hb) hwake
        (·.snoc hplan (.move (.resume i))) htasks
      rw [milestones_resume hb hwake,
        arrivals_turn [] hb (turn?_resume hb hwake) rfl rfl hinbox]
      exact haccount
  | @joined b k task outcome hb hx' htask howner hwatched hended heq htasks =>
      subst hx'
      have hturn : ∀ t, (initial.run happened).turn? (.move (.join k)) ≠ some (i, t) := by
        simp [turn?]
      have hlive : phase.In b.state → b.ended = false := fun hin => (ho.attended hb).live hin
      rw [milestones_unturned hturn, htasks, heq,
        arrivals_told hturn (inboxOf_eq hb) (heq ▸ hc')]
      exact (h.known hb phase).join htask howner hwatched hended hlive (·.snoc (b.told_plan _) _)

theorem allAccounted_run (hx : ∀ x ∈ happened, x ≠ .cancel) : AllAccounted happened := by
  refine run_induction (P := fun happened => (∀ x ∈ happened, x ≠ .cancel) → AllAccounted happened)
    (fun _ => ⟨fun hc => ?_, fun _ _ => rfl⟩) ?_ hx hx
  · simp [initial, run] at hc
  · intro happened x ho hs h hx
    have hbefore : ∀ y ∈ happened, y ≠ .cancel := fun y hy => hx y (List.mem_append_left _ hy)
    exact (h hbefore).step hbefore ho hs

end System

end ServiceHost
