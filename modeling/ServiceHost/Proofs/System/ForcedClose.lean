import ServiceHost.Proofs.System.Endings

/-! # Closing by force

A container that does not close in time is closed by force: everyone is told to stop. Once nobody
can act any more, everything has ended and every promise is settled, except for callbacks that
sleep and for blocking work that has begun: nobody cuts those short, and they go on when their
timers go off. -/

namespace ServiceHost

/-- A callback of the service waits for a timer. -/
def Controller.Sleeps (c : Controller) : Prop :=
  ∃ callback, c.callback = some callback ∧ callback.wait = .timer

/-- A task is at the same point of its work as before. -/
def Task.Paused (t t' : Task) : Prop := t'.state = t.state ∧ t'.watched = t.watched

theorem Task.Paused.isOver {t t' : Task} (h : t.Paused t') : t'.isOver = t.isOver := by
  unfold Task.isOver
  rw [h.1, h.2]

/-- A service that is removed leaves no work when it takes a message. -/
theorem Controller.deferred_of_removed {c : Controller} (hcan : c.canTake = true)
    (h : c.state = .removed) (id : Nat) (w : World) : (c.take id w).deferred = none := by
  rcases c.take_cases hcan id w with ⟨_, _, _, _, _, ht⟩ | ⟨e, rest, next, _, _, hm, ht⟩
  · exact ht.deferred
  · have hleft := ht.left
    rw [h] at hm
    generalize c.effects = effects at hm hleft
    generalize e.signal = x at hm
    cases hm with
    | last => exact hleft.2.2

namespace System

variable {s s' : System} {x : Stimulus} {i : Nat} {c c' : Controller} {k : Ticket}
  {happened : List Stimulus}

/-! ## While the end is waited for -/

/-- No service is left, and no blocking work is under way. -/
structure Vacant (s : System) : Prop where
  services : ∀ {i : Nat} {c : Controller}, s.controllers[i]? = some c → c.state = .removed
  work : ∀ {i : Nat} {t : Task}, s.tasks[i]? = some t → t.work.blocking = true → t.Done

/-- A controller whose service is removed stays as it is, but for what it is told. -/
theorem Befalls.removed (hb : s.Befalls x i c') (hidle : s.container.inbox = [])
    (hu : s.WellFormed) (h : ∀ {c : Controller}, s.controllers[i]? = some c → c.state = .removed) :
    c'.state = .removed := by
  cases hb with
  | told messages hc hc' => rw [hc', Controller.told_state, h hc]
  | alarmed hc hc' =>
      have hremoved := h hc
      rwa [hc']
  | @took c hx hc hcan hc' =>
      have hle := (advances_take hcan i s.tasks.length s.world).phase_le
      rw [← hc', h hc] at hle
      cases hstate : c'.state <;> simp [hstate, State.phase] at hle ⊢
  | resumed hx hc hwake hc' =>
      have hlive := (hu.controllers hc).live (Controller.callback_of_wakeUp? hwake)
      rw [hc', (Controller.rests_resume hwake hlive i s.tasks.length).state, h hc]
  | launched messages hx hi hc' =>
      rw [hidle] at hi
      contradiction
  | ended hc hlive hfree hc' =>
      have hremoved := h hc
      rwa [hc']

/-- Services that are removed leave no work. -/
theorem Vacant.not_leavesWork (h : s.Vacant) (hu : s.WellFormed) : ¬s.LeavesWork x := by
  rintro ⟨id, c, hc, ⟨-, hcan, hleft⟩ | ⟨-, hresume⟩⟩
  · exact hleft (Controller.deferred_of_removed hcan (h.services hc) id s.world)
  · have hfree := Controller.free_of_removed (hu.controllers hc).callback (h.services hc)
    simp [Controller.canResume, Controller.wakeUp?, hfree] at hresume

theorem Vacant.apply (h : s.Vacant) (hu : s.WellFormed) (hidle : s.container.inbox = [])
    (x : Stimulus) : (s.apply x).Vacant := by
  refine ⟨fun hc' => ((happens_apply s x).befalls hc').removed hidle hu h.services, ?_⟩
  intro i t' ht' hblocking
  have hb := taskBefalls_apply s x i
  rw [ht'] at hb
  generalize ht : s.tasks[i]? = o at hb
  cases hb with
  | kept hs hwork hw =>
      have hdone := h.work ht (hwork ▸ hblocking)
      rwa [Task.Done, ← hs] at hdone
  | alarmed t => exact (h.work ht hblocking).alarm
  | ran t hx ht hcan =>
      have hdone := h.work ht (t.run_work i s.world ▸ hblocking)
      simp [hdone.not_canRun] at hcan
  | joined t hw ho => exact done_of_outcome ho
  | calledOff t => exact Task.done_callOff (h.work ht hblocking).not_busy
  | launched hl => exact absurd hl (h.not_leavesWork hu)

/-- A closed container that nobody was told to stop has nothing left to wait for that could not be
cut short. -/
theorem vacant_of_closed (hx : ∀ x ∈ happened, x ≠ .cancel)
    (hclosed : (initial.run happened).container.stage = .closed) :
    (initial.run happened).Vacant := by
  have ho := orderly_run hx
  have hgone : ∀ {i : Nat} {c : Controller}, (initial.run happened).controllers[i]? = some c →
      c.state = .removed := by
    intro i c hc
    refine ho.consistent.gone hc ?_
    rintro m ⟨n, hn, -⟩
    simp [(ho.unserved (by simp [Container.isServing, hclosed])).1 m] at hn
  refine ⟨hgone, fun {i t} ht hblocking => ?_⟩
  cases hw : t.watched with
  | false => exact done_run hx ht hw
  | true =>
      have hmem := List.mem_of_getElem? ht
      have hc := List.getElem?_eq_getElem (owner_lt_run hx t hmem)
      have haccount := (allAccounted_run hx).known hc t.phase
      obtain ⟨-, -, -, -, hwanted, -⟩ :=
        haccount.pending_of (taskOf?_eq_some.mpr ⟨ht, rfl, rfl⟩) hw
      cases hun : t.unwanted with
      | false => exact absurd (hgone hc) (hwanted hun).1.ne_removed
      | true => simp [blocking_of_unwanted hx hmem hw hun] at hblocking

/-- As long as a closed container waits for everyone to be done, no service is left, and no blocking
work. -/
theorem vacant_run (hclosed : (initial.run happened).container.stage = .closed)
    (hlive : (initial.run happened).container.ended = false) : (initial.run happened).Vacant := by
  induction happened using List.reverseRecOn with
  | nil => cases hclosed
  | append_singleton happened x ih =>
      have hu := wellFormed_run happened
      have hs := happens_apply (initial.run happened) x
      cases hcancelled : (initial.run happened).cancelled with
      | false =>
          have hx := not_cancel_of_uncancelled hcancelled
          by_cases hcancel : x = .cancel
          · subst hcancel
            have hsame := unmoved_cancel (initial.run happened)
            rw [run_snoc] at hclosed ⊢
            have hvacant := vacant_of_closed hx (hsame.container ▸ hclosed)
            exact ⟨hsame.controllers ▸ hvacant.services, hsame.tasks ▸ hvacant.work⟩
          · refine vacant_of_closed (List.forall_mem_append.mpr ⟨hx, ?_⟩) hclosed
            exact List.forall_mem_singleton.mpr hcancel
      | true =>
          rw [run_snoc] at hclosed hlive ⊢
          have hended : ((initial.run happened).apply x).container.ended ≠ true := by simp [hlive]
          cases hs.advances with
          | stays hst he =>
              have hclosed' := hst.symm.trans hclosed
              refine (ih hclosed' ?_).apply hu (hu.container.idle ?_) x
              · exact Bool.eq_false_iff.mpr fun hno => hended (he hno)
              · simp [Container.isServing, hclosed']
          | opens origin hx hst h' => simp [h'] at hclosed
          | begins hx hi hst h' => simp [h'] at hclosed
          | empties hx hst h' hempty he => exact absurd (he hcancelled) hended
          | forced hx hc hserving h' he => exact absurd he hended

/-! ## Once everyone was told to stop -/

/-- Closing by force has come to its end: everything has ended and every promise is settled, except
for callbacks that sleep, with what they leave open, and for blocking work that nobody waits for. -/
structure CutShort (s : System) : Prop where
  closed : s.container.stage = .closed
  ended : s.container.ended = true
  controllers : ∀ {i : Nat} {c : Controller}, s.controllers[i]? = some c → c.ended = true ∨
    c.Sleeps ∧ ∃ timer ∈ s.world.timers, timer.wakes = .controller i
  tasks : ∀ {i : Nat} {t : Task}, s.tasks[i]? = some t → t.isOver = true ∨
    t.watched = false ∧ t.isBusy = true ∧ ∃ timer ∈ s.world.timers, timer.wakes = .task i
  promises : ∀ {k : Ticket}, s.world.status k = some none →
    ∃ (i : Nat) (c : Controller), s.controllers[i]? = some c ∧ c.install = some k ∧ c.Sleeps

/-- Once the container has ended, only controllers have promises to keep. -/
theorem Accounted.installs (h : s.Accounted) (hf : Firm s.container)
    (he : s.container.ended = true) (hk : s.world.status k = some none) : s.Installs k := by
  obtain ⟨hclosed, hremovals, hclosing⟩ := hf.ended he
  have hinbox := hf.idle (by simp [Container.isServing, hclosed])
  have hmem := h.mem_hands.mpr hk
  simp only [hands, Container.tickets, Container.awaited, hinbox, hremovals, hclosing,
    List.mem_append, List.mem_filterMap] at hmem
  rcases hmem with ((hmem | hmem) | hmem) | ⟨c, hc, hinstall⟩
  · simp at hmem
  · simp at hmem
  · simp at hmem
  · obtain ⟨i, hi⟩ := List.getElem?_of_mem hc
    exact ⟨i, c, hi, hinstall⟩

/-- A callback that waits for an answer is given one once the container has ended. -/
theorem Inquires.settled (h : s.Inquires k) (ha : s.Accounted) (hf : Firm s.container)
    (he : s.container.ended = true) : ∃ o, s.world.outcome? k = some o := by
  cases hstatus : s.world.status k with
  | none => exact absurd hstatus h.made
  | some promise =>
      cases promise with
      | none => exact absurd (ha.installs hf he hstatus) h.apart
      | some o => exact ⟨o, World.outcome?_eq_some.mpr hstatus⟩

/-- A controller that can neither end where it is nor go on with its callback sleeps. -/
theorem Quiescent.sleeps (hm : s.Quiescent) (hu : s.WellFormed) (ha : s.Accounted)
    (hw : s.WaitsBacked) (hx : s.cancelled = true) (he : s.container.ended = true)
    (hc : s.controllers[i]? = some c) (hlive : c.ended = false) : c.Sleeps := by
  have hcut := hm (.cancel i)
  have hresume := hm (.resume i)
  simp only [canMove, hc, hx, hlive, Option.any_some, Bool.true_and, Bool.not_false] at hcut hresume
  obtain ⟨callback, hcallback⟩ := Option.isSome_iff_exists.mp (by simpa using hcut)
  refine ⟨callback, hcallback, ?_⟩
  simp only [Controller.canResume, Controller.wakeUp?, hcallback] at hresume
  cases hwait : callback.wait with
  | timer => rfl
  | elapsed => simp [hwait] at hresume
  | answer k awaited =>
      obtain ⟨o, ho⟩ := (hw.answers hc hcallback hwait).settled ha hu.container he
      simp [hwait, ho] at hresume

/-- A task that its watcher cannot call off any more is over, or its work is blocking and sleeps. -/
theorem Quiescent.left (hm : s.Quiescent) (hw : s.WaitsBacked) (hx : s.cancelled = true) {t : Task}
    (ht : s.tasks[i]? = some t) : t.watched = false ∧ (t.Done ∨ t.isBusy = true ∧
      ∃ timer ∈ s.world.timers, timer.wakes = .task i) := by
  have hoff := hm (.callOff i)
  have hrun := hm (.run i)
  simp only [canMove, ht, hx, Option.any_some, Bool.or_true, Bool.and_true] at hoff hrun
  refine ⟨hoff, (hw.left ht hoff).imp_right fun hbusy => ⟨hbusy, hw.tasks ht ?_⟩⟩
  unfold Task.isBusy at hbusy
  unfold Task.canRun at hrun
  cases hstate : t.state <;> simp [hstate] at hbusy hrun ⊢

/-- A container that finds nobody who can act has ended. -/
theorem Quiescent.ended (hm : (initial.run happened).Quiescent)
    (hx : (initial.run happened).cancelled = true)
    (hst : (initial.run happened).container.stage ≠ .fresh) :
    (initial.run happened).container.stage = .closed ∧
      (initial.run happened).container.ended = true := by
  have hforce := hm .force
  have hfinish := hm .finish
  have hclosed : (initial.run happened).container.stage = .closed := by
    simp only [canMove, hx, Bool.and_true, Container.isServing] at hforce
    cases hstage : (initial.run happened).container.stage <;> simp_all
  refine ⟨hclosed, ?_⟩
  by_contra he
  have hlive : (initial.run happened).container.ended = false := by simpa using he
  have hvacant := vacant_run hclosed hlive
  have hquiet : (initial.run happened).isQuiet = true := by
    rw [isQuiet, Bool.and_eq_true, List.all_eq_true, List.all_eq_true]
    refine ⟨fun c hc => ?_, fun t ht => ?_⟩
    · obtain ⟨i, hi⟩ := List.getElem?_of_mem hc
      have hcut := hm (.cancel i)
      have hfree := Controller.free_of_removed ((wellFormed_run happened).controllers hi).callback
        (hvacant.services hi)
      simpa [canMove, hi, hx, hfree] using hcut
    · obtain ⟨i, hi⟩ := List.getElem?_of_mem ht
      obtain ⟨hw, hdone | ⟨hbusy, -⟩⟩ := hm.left (waitsBacked_run happened) hx hi
      · exact Task.isOver_iff.mpr ⟨hw, hdone⟩
      · exact Task.isOver_iff.mpr ⟨hw, hvacant.work hi (Bool.and_eq_true_iff.mp hbusy).1⟩
  simp [canMove, hclosed, hlive, hquiet] at hfinish

theorem Quiescent.cutShort (hm : (initial.run happened).Quiescent)
    (hx : (initial.run happened).cancelled = true)
    (hst : (initial.run happened).container.stage ≠ .fresh) : (initial.run happened).CutShort := by
  have hu := wellFormed_run happened
  have ha := accounted_run happened
  have hw := waitsBacked_run happened
  obtain ⟨hclosed, hended⟩ := hm.ended hx hst
  refine ⟨hclosed, hended, fun {i c} hc => ?_, fun {i t} ht => ?_, fun {k} hk => ?_⟩
  · cases hlive : c.ended with
    | true => exact .inl rfl
    | false =>
        obtain ⟨callback, hcallback, hwait⟩ := hm.sleeps hu ha hw hx hended hc hlive
        exact .inr ⟨⟨callback, hcallback, hwait⟩, hw.timers hc hcallback hwait⟩
  · obtain ⟨hunwatched, hdone | hbusy⟩ := hm.left hw hx ht
    · exact .inl (Task.isOver_iff.mpr ⟨hunwatched, hdone⟩)
    · exact .inr ⟨hunwatched, hbusy⟩
  · obtain ⟨i, c, hc, hinstall⟩ := ha.installs hu.container hended hk
    refine ⟨i, c, hc, hinstall, hm.sleeps hu ha hw hx hended hc ?_⟩
    by_contra hlive
    rw [((hu.controllers hc).ended (by simpa using hlive)).2.2] at hinstall
    contradiction

/-! ## Afterwards -/

/-- Nothing befalls a controller that has ended. -/
theorem Befalls.ended_eq (hb : s.Befalls x i c') (hu : s.WellFormed)
    (h : s.container.stage = .closed) (hc : s.controllers[i]? = some c) (he : c.ended = true) :
    c' = c := by
  have hfree := ((hu.controllers hc).ended he).1
  cases hb with
  | told messages hc₁ hc' =>
      obtain rfl := Option.some.inj (hc.symm.trans hc₁)
      rw [hc', Controller.told, if_pos he]
  | alarmed hc₁ hc' =>
      obtain rfl := Option.some.inj (hc.symm.trans hc₁)
      rw [hc', Controller.alarm, hfree, Option.map_none, ← hfree]
  | took hx hc₁ hcan =>
      obtain rfl := Option.some.inj (hc.symm.trans hc₁)
      simp [Controller.ended_of_canTake hcan] at he
  | resumed hx hc₁ hwake =>
      obtain rfl := Option.some.inj (hc.symm.trans hc₁)
      simp [Controller.callback_of_wakeUp? hwake] at hfree
  | launched messages hx hi =>
      simp [hu.container.idle (by simp [Container.isServing, h])] at hi
  | ended hc₁ hlive =>
      obtain rfl := Option.some.inj (hc.symm.trans hc₁)
      simp [he] at hlive

/-- What is over stays so. -/
theorem paused_apply {t : Task} (ht : s.tasks[i]? = some t) (h : t.isOver = true) :
    ∃ t', (s.apply x).tasks[i]? = some t' ∧ t.Paused t' := by
  have hb := taskBefalls_apply s x i
  rw [ht] at hb
  generalize ht' : (s.apply x).tasks[i]? = o at hb
  obtain ⟨hunwatched, hdone⟩ := Task.isOver_iff.mp h
  cases hb with
  | kept hs hwork hw => exact ⟨_, rfl, hs, hw⟩
  | alarmed =>
      refine ⟨_, rfl, ?_, rfl⟩
      unfold Task.Done at hdone
      unfold Task.alarm
      cases hstate : t.state <;> simp [hstate] at hdone ⊢
  | ran _ hx ht hcan => simp [hdone.not_canRun] at hcan
  | joined _ hw | calledOff _ hx hw => simp [hw] at hunwatched

/-- Nobody will ever act again. -/
structure Inert (s : System) : Prop where
  closed : s.container.stage = .closed
  ended : s.container.ended = true
  controllers : ∀ c ∈ s.controllers, c.ended = true
  tasks : ∀ t ∈ s.tasks, t.isOver = true

theorem Inert.quiescent (h : s.Inert) (hu : s.WellFormed) : s.Quiescent := by
  intro m
  have hserving : s.container.isServing = false := by simp [Container.isServing, h.closed]
  have htask : ∀ (id : Nat) (p : Task → Bool), (∀ t : Task, t.isOver = true → p t = false) →
      s.tasks[id]?.any p = false := by
    intro id p hp
    cases ht : s.tasks[id]? with
    | none => rfl
    | some t => exact hp t (h.tasks t (List.mem_of_getElem? ht))
  have hcontroller : ∀ (id : Nat) (p : Controller → Bool),
      (∀ c : Controller, c.ended = true → c.callback = none → p c = false) →
      s.controllers[id]?.any p = false := by
    intro id p hp
    cases hc : s.controllers[id]? with
    | none => rfl
    | some c =>
        have he := h.controllers c (List.mem_of_getElem? hc)
        exact hp c he ((hu.controllers hc).ended he).1
  have hover : ∀ t : Task, t.isOver = true → t.watched = false ∧ t.canRun = false := by
    intro t ht
    obtain ⟨hw, hdone⟩ := Task.isOver_iff.mp ht
    exact ⟨hw, hdone.not_canRun⟩
  cases m with
  | receive => simp [System.canMove, hserving]
  | force => simp [System.canMove, hserving]
  | finish => simp [System.canMove, h.ended]
  | take id => exact hcontroller id _ fun c he _ => by simp [Controller.canTake, he]
  | resume id =>
      exact hcontroller id _ fun c _ hc => by simp [Controller.canResume, Controller.wakeUp?, hc]
  | cancel id =>
      simp only [System.canMove, Bool.and_eq_false_iff]
      exact .inr (hcontroller id _ fun c he _ => by simp [he])
  | run id => exact htask id _ fun t ht => (hover t ht).2
  | join id => exact htask id _ fun t ht => by simp [(hover t ht).1]
  | callOff id => exact htask id _ fun t ht => by simp [(hover t ht).1]
  | warn id => exact htask id _ fun t ht => by simp [(hover t ht).1]

/-- Whatever happens then, no service takes a step. -/
theorem Inert.journal_apply (h : s.Inert) (hu : s.WellFormed) (x : Stimulus) :
    (s.apply x).world.journal = s.world.journal := by
  cases x with
  | move m => rw [show s.apply (.move m) = s from if_neg (by simp [h.quiescent hu m])]
  | passOver | wait | log => rfl
  | elapse timer =>
      show (s.elapse timer).world.journal = _
      unfold elapse
      split
      · rw [alarm_world]
      · rfl
  | cancel => rw [show s.apply .cancel = s.cancel from rfl, cancel_world]
  | giveUp => rw [show s.apply .giveUp = s.giveUp from rfl, giveUp_world]
  | request origin o =>
      by_cases ho : o = .start
      · subst ho
        have hstart := start_of_ne_fresh (s := s) (by simp [h.closed])
        simp only [apply, operate, hstart]
      · exact (lodges_operate s origin ho).journal

/-- Whatever has ended stays as it is. If nobody sleeps and no blocking work is under way, nothing
is done at all any more. -/
structure Stays (s s' : System) : Prop where
  controllers : ∀ {i : Nat} {c : Controller}, s.controllers[i]? = some c → c.ended = true →
    s'.controllers[i]? = some c
  tasks : ∀ {i : Nat} {t : Task}, s.tasks[i]? = some t → t.isOver = true →
    ∃ t', s'.tasks[i]? = some t' ∧ t.Paused t'
  awake : (∀ c ∈ s.controllers, ¬c.Sleeps) → (∀ t ∈ s.tasks, t.isBusy = false) →
    s'.controllers = s.controllers ∧ s'.world.journal = s.world.journal ∧ s'.Inert

theorem Happens.ended_kept (hs : Happens s x s') (hu : s.WellFormed)
    (h : s.container.stage = .closed) (hc : s.controllers[i]? = some c) (he : c.ended = true) :
    s'.controllers[i]? = some c := by
  have hlt := (List.getElem?_eq_some_iff.mp hc).1
  rw [← hs.length_eq h] at hlt
  have hc' := List.getElem?_eq_getElem hlt
  rw [hc', (hs.befalls hc').ended_eq hu h hc he]

theorem Inert.apply (h : s.Inert) (hu : s.WellFormed) (x : Stimulus) :
    (s.apply x).controllers = s.controllers ∧ (s.apply x).Inert := by
  have hs := happens_apply s x
  have hsame : (s.apply x).controllers = s.controllers := by
    refine List.ext_getElem? fun i => ?_
    cases hc : s.controllers[i]? with
    | none =>
        rw [List.getElem?_eq_none_iff] at hc ⊢
        rwa [hs.length_eq h.closed]
    | some c => exact hs.ended_kept hu h.closed hc (h.controllers c (List.mem_of_getElem? hc))
  obtain ⟨hclosed, hended⟩ := hs.stays_closed h.closed
  refine ⟨hsame, hclosed, hended h.ended, hsame ▸ h.controllers, fun t' ht' => ?_⟩
  obtain ⟨i, hi⟩ := List.getElem?_of_mem ht'
  cases ht : s.tasks[i]? with
  | none =>
      have hb := taskBefalls_apply s x i
      rw [ht, hi] at hb
      cases hb with
      | launched hl =>
          obtain ⟨id, c, hc, ⟨-, hcan, -⟩ | ⟨-, hcan⟩⟩ := hl
          · have htake := h.quiescent hu (.take id)
            simp [canMove, hc, hcan] at htake
          · have hresume := h.quiescent hu (.resume id)
            simp [canMove, hc, hcan] at hresume
  | some t =>
      have hover := h.tasks t (List.mem_of_getElem? ht)
      obtain ⟨t₁, ht₁, hpaused⟩ := paused_apply (x := x) ht hover
      obtain rfl := Option.some.inj (hi.symm.trans ht₁)
      rw [hpaused.isOver, hover]

theorem Stays.apply (h : s.Stays s') (hu : s'.WellFormed) (hclosed : s'.container.stage = .closed)
    (x : Stimulus) : s.Stays (s'.apply x) := by
  have hs := happens_apply s' x
  refine ⟨fun hc he => hs.ended_kept hu hclosed (h.controllers hc he) he,
    fun ht hover => ?_, fun hawake hfree => ?_⟩
  · obtain ⟨t', ht', hpaused⟩ := h.tasks ht hover
    obtain ⟨t'', ht'', hpaused'⟩ := paused_apply (x := x) ht' (hpaused.isOver.trans hover)
    exact ⟨t'', ht'', hpaused'.1.trans hpaused.1, hpaused'.2.trans hpaused.2⟩
  · obtain ⟨hcontrollers, hjournal, hinert⟩ := h.awake hawake hfree
    obtain ⟨hsame, hinert'⟩ := hinert.apply hu x
    exact ⟨hsame.trans hcontrollers, (hinert.journal_apply hu x).trans hjournal, hinert'⟩

theorem CutShort.inert (h : s.CutShort) (hawake : ∀ c ∈ s.controllers, ¬c.Sleeps)
    (hfree : ∀ t ∈ s.tasks, t.isBusy = false) : s.Inert := by
  refine ⟨h.closed, h.ended, fun c hc => ?_, fun t ht => ?_⟩
  · obtain ⟨i, hi⟩ := List.getElem?_of_mem hc
    exact (h.controllers hi).resolve_right fun hsleeps => hawake c hc hsleeps.1
  · obtain ⟨i, hi⟩ := List.getElem?_of_mem ht
    exact (h.tasks hi).resolve_right fun hbusy => by simp [hfree t ht] at hbusy

/-- After closing by force, whatever happens later, nothing is done but by callbacks that slept and
by blocking work. -/
theorem CutShort.stays (h : (initial.run happened).CutShort) (later : List Stimulus) :
    (initial.run happened).Stays (initial.run (happened ++ later)) := by
  have hall : (initial.run happened).Stays (initial.run (happened ++ later)) ∧
      (initial.run (happened ++ later)).container.stage = .closed := by
    induction later using List.reverseRecOn with
    | nil =>
        rw [List.append_nil]
        exact ⟨⟨fun hc _ => hc, fun ht _ => ⟨_, ht, rfl, rfl⟩,
          fun hawake hfree => ⟨rfl, rfl, h.inert hawake hfree⟩⟩, h.closed⟩
    | append_singleton later x ih =>
        rw [← List.append_assoc, run_snoc]
        exact ⟨ih.1.apply (wellFormed_run _) ih.2 x, ((happens_apply _ x).stays_closed ih.2).1⟩
  exact hall.1

/-! ## Closing by force -/

/-- A container is asked to close in limited time, after `before`. When time is up, `meanwhile` has
happened, and it is asked what is left. That is known after `asking`. -/
structure TimedClose where
  before : List Stimulus
  meanwhile : List Stimulus
  asking : List Stimulus

namespace TimedClose

def overdue (t : TimedClose) : List Stimulus :=
  t.before ++ .request (.request 0) .closeInTime :: t.meanwhile

def known (t : TimedClose) : List Stimulus :=
  t.overdue ++ .request (.request 0) .textOfRest :: t.asking

/-- What happens up to the point where the task of the container is given up. -/
def forced (t : TimedClose) (rest : Except Error Answer) : List Stimulus :=
  t.known ++ [.log .debug (overdueText rest), .cancel, .giveUp]

/-- The promise that the container closes. -/
def closing (t : TimedClose) : Ticket := ((initial.run t.before).ask none .close).1

/-- The promise to tell what is left. -/
def telling (t : TimedClose) : Ticket := ((initial.run t.overdue).ask none .text).1

/-- The container did not close in time, and what was left is known. -/
structure Fails (t : TimedClose) (rest : Except Error Answer) : Prop where
  unanswered : (initial.run t.overdue).world.outcome? t.closing = none
  told : (initial.run t.known).world.outcome? t.telling = some rest

theorem run_forced (t : TimedClose) (rest : Except Error Answer) :
    initial.run (t.forced rest) = (initial.run t.known).forceClose rest := by
  rw [forced, run_append]
  rfl

end TimedClose

/-- An answer that was given is never taken back. -/
theorem status_kept {o : Except Error Answer} (later : List Stimulus)
    (h : (initial.run happened).world.status k = some (some o)) :
    (initial.run (happened ++ later)).world.status k = some (some o) := by
  rw [run_append]
  refine (kept_run (P := fun s => (s.WellFormed ∧ s.Accounted) ∧
    s.world.status k = some (some o)) ?_ ⟨⟨wellFormed_run _, accounted_run _⟩, h⟩ later).2
  intro s s' x ⟨⟨hu, ha⟩, h⟩ hs
  have hlets := hs.lets ha hu
  refine ⟨⟨hu.happens hs, ha.lets hlets⟩, ?_⟩
  obtain ⟨made, gone, -, hc⟩ := hlets
  exact hc.fixed h

/-- A container whose answer to the request to close is still out was opened. -/
theorem TimedClose.Fails.opened {t : TimedClose} {rest : Except Error Answer} (h : t.Fails rest) :
    (initial.run t.before).container.stage ≠ .fresh := by
  intro hfresh
  have hserving : (initial.run t.before).container.isServing = false := by
    simp [Container.isServing, hfresh]
  obtain ⟨r, -, hlodged⟩ := lodged_sendAll (s := initial.run t.before) (k := t.closing)
    (Asked.pledge (initial.run t.before).world none .close fun _ => rfl)
    (List.mem_singleton.mpr rfl)
  rw [Lodged, if_neg (by simp [hserving])] at hlodged
  have hanswered : (initial.run (t.before ++ [.request (.request 0) .closeInTime])).world.status
      t.closing = some (some (.error
        (.invalidState r.operation (initial.run t.before).container.stage))) := by
    rw [run_snoc]
    exact hlodged
  have hkept := status_kept t.meanwhile hanswered
  have hopen := h.unanswered
  rw [TimedClose.overdue, List.append_cons] at hopen
  rw [World.outcome?_eq_some.mpr hkept] at hopen
  contradiction

theorem not_fresh_run (later : List Stimulus)
    (h : (initial.run happened).container.stage ≠ .fresh) :
    (initial.run (happened ++ later)).container.stage ≠ .fresh := by
  rw [run_append]
  exact kept_run (P := fun s => s.container.stage ≠ .fresh) (fun h hs => hs.not_fresh h) h later

/-- Closing by force comes to an end once nobody can act any more: everything has ended and every
promise is settled, except for callbacks that sleep and blocking work under way, and nobody but
those does anything later. -/
theorem cutShort_forced {t : TimedClose} {rest : Except Error Answer} {after : List Stimulus}
    (h : t.Fails rest) (hm : (initial.run (t.forced rest ++ after)).Quiescent) :
    (initial.run (t.forced rest ++ after)).CutShort ∧ ∀ later : List Stimulus,
      (initial.run (t.forced rest ++ after)).Stays
        (initial.run (t.forced rest ++ after ++ later)) := by
  have hcancelled : (initial.run (t.forced rest ++ after)).cancelled = true := by
    rw [run_append]
    refine cancelled_run after ?_
    rw [TimedClose.run_forced, System.forceClose, (unmoved_giveUp _).cancelled,
      (unmoved_cancel _).cancelled]
  have hstage : (initial.run (t.forced rest ++ after)).container.stage ≠ .fresh := by
    simp only [TimedClose.forced, TimedClose.known, TimedClose.overdue, List.append_assoc]
    exact not_fresh_run _ h.opened
  have hcut := hm.cutShort hcancelled hstage
  exact ⟨hcut, hcut.stays⟩

/-- A service that sleeps while it starts. -/
def sleeper : Service :=
  { plainService "late" [] with
    callbacks := .scripted false [.sleep 500, .note "late", .sleep 100000] [] }

/-- A service whose start leaves blocking work to be done. -/
def worker : Service :=
  { plainService "worker" [] with callbacks := .scripted false [.run ⟨1000, .done⟩ false] [] }

/-- A service goes to sleep and another one to work, and closing takes too long. -/
def sleeperCloses : TimedClose where
  before := [.request (.request 0) .start, .request (.request 1) (.install sleeper),
    .request (.request 2) (.install worker)] ++ turns 3 2 ++ [.move (.run 0)]
  meanwhile := [.move .receive]
  asking := [.move .receive]

/-- What is left when time is up. -/
def sleeperLeft : Except Error Answer :=
  .ok (.text ("late in AwaitDependenciesStarted\n" ++
    "worker in AwaitStart \x7b stop_after_started: false \x7d"))

/-- The container is closed by force, the watcher of the work leaves, and its controller ends. -/
def sleeperForced : List Stimulus :=
  sleeperCloses.forced sleeperLeft ++ [.move .force, .move (.callOff 0), .move (.cancel 1)]

theorem fails_sleeperCloses : sleeperCloses.Fails sleeperLeft :=
  ⟨by decide +kernel, by decide +kernel⟩

theorem quiescent_sleeperForced : (initial.run sleeperForced).Quiescent := by
  decide +kernel

theorem cutShort_sleeperForced : sleeperCloses.Fails sleeperLeft ∧
    (initial.run sleeperForced).Quiescent ∧ (initial.run sleeperForced).CutShort ∧
    (∀ later : List Stimulus, (initial.run sleeperForced).Stays
      (initial.run (sleeperForced ++ later))) ∧
    ∃ c ∈ (initial.run sleeperForced).controllers, ∃ t ∈ (initial.run sleeperForced).tasks,
      c.ended = false ∧ t.isBusy = true := by
  obtain ⟨hcut, hstays⟩ := cutShort_forced fails_sleeperCloses quiescent_sleeperForced
  exact ⟨fails_sleeperCloses, quiescent_sleeperForced, hcut, hstays, by decide +kernel⟩

/-- Closing by force does not end everything: a callback that sleeps goes on later. -/
theorem not_ended_of_forced : ¬∀ (t : TimedClose) (rest : Except Error Answer)
    (after later : List Stimulus), t.Fails rest →
    (initial.run (t.forced rest ++ after)).Quiescent →
    (∀ k, (initial.run (t.forced rest ++ after)).world.status k ≠ some none) ∧
    (∀ c ∈ (initial.run (t.forced rest ++ after)).controllers, c.ended = true) ∧
    (initial.run (t.forced rest ++ after ++ later)).world.journal =
      (initial.run (t.forced rest ++ after)).world.journal := by
  intro h
  have hends := (h sleeperCloses sleeperLeft _ [] fails_sleeperCloses quiescent_sleeperForced).2.1
  revert hends
  decide +kernel

end System

end ServiceHost
