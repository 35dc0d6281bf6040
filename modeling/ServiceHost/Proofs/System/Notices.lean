import ServiceHost.Proofs.System.Cells
import ServiceHost.Proofs.System.Mirror
import ServiceHost.Proofs.System.Settlement

/-! # Reports and who made them

A report carries only the name of a service. It is nevertheless taken in for the very incarnation
whose controller made it: while a report is under way, that incarnation stays registered. -/

namespace ServiceHost

open ServiceHost.Graph (Trial TrialStep)

/-- A report, with the number of the controller that made it. -/
structure Notice where
  sender : Nat
  name : Name
  state : State
  value : Option Value
  deriving DecidableEq

/-- The request a notice reaches the container as. -/
def Notice.request (x : Notice) : Request := .report x.name x.state x.value

/-- Whether a request is a report. -/
def Request.isReport : Request → Bool
  | .report .. => true
  | _ => false

/-- A report with the controller it comes from. -/
def Request.notice? (sender : Nat) : Request → Option Notice
  | .report m reached value => some ⟨sender, m, reached, value⟩
  | _ => none

theorem Request.isReport_eq_false {r : Request} (h : r.ticket?.isSome = true) :
    r.isReport = false := by
  cases r <;> first | rfl | simp [ticket?] at h

namespace System

/-! ## Turns -/

/-- The turn a controller makes when something happens, with the number of the controller. -/
def turn? (s : System) : Stimulus → Option (Nat × Turn)
  | .move (.take i) =>
    (s.controllers[i]?.filter (·.canTake)).map fun c => (i, c.take i s.world)
  | .move (.resume i) =>
    (s.controllers[i]?.filter (·.canResume s.world)).map fun c => (i, c.resume i s.world)
  | _ => none

/-- A controller takes a message or goes on with its callback. -/
inductive Turns (s : System) (i : Nat) (c : Controller) : Turn → Prop
  | took (h : c.canTake = true) : Turns s i c (c.take i s.world)
  | resumed {callback : Callback} {answer : Option (Awaited × Except Error Answer)}
      (h : c.wakeUp? s.world = some (callback, answer)) : Turns s i c (c.resume i s.world)

variable {s s' : System} {x : Stimulus} {i : Nat} {c c' : Controller} {t : Turn}
  {happened : List Stimulus}

theorem turn?_take (hc : s.controllers[i]? = some c) (h : c.canTake = true) :
    s.turn? (.move (.take i)) = some (i, c.take i s.world) := by
  simp [turn?, hc, h]

theorem turn?_resume (hc : s.controllers[i]? = some c) {callback : Callback}
    {answer : Option (Awaited × Except Error Answer)}
    (h : c.wakeUp? s.world = some (callback, answer)) :
    s.turn? (.move (.resume i)) = some (i, c.resume i s.world) := by
  simp [turn?, hc, Controller.canResume, h]

/-- What happens when a controller makes a turn is that the turn comes into effect. -/
theorem turns_of_turn? (h : s.turn? x = some (i, t)) :
    ∃ c, s.controllers[i]? = some c ∧ s.Turns i c t ∧ s.apply x = s.applyTurn i t := by
  unfold turn? at h
  split at h
  · next j =>
      obtain ⟨c, hc, he⟩ := Option.map_eq_some_iff.mp h
      obtain ⟨hc, htake⟩ := Option.filter_eq_some_iff.mp hc
      obtain ⟨rfl, rfl⟩ := Prod.mk.inj he
      exact ⟨c, hc, .took htake, by simp [apply, perform, performNow, canMove, take, hc, htake]⟩
  · next j =>
      obtain ⟨c, hc, he⟩ := Option.map_eq_some_iff.mp h
      obtain ⟨hc, hresume⟩ := Option.filter_eq_some_iff.mp hc
      obtain ⟨rfl, rfl⟩ := Prod.mk.inj he
      obtain ⟨⟨callback, answer⟩, hwake⟩ := Option.isSome_iff_exists.mp hresume
      exact ⟨c, hc, .resumed hwake,
        by simp [apply, perform, performNow, canMove, resume, hc, hresume]⟩
  · cases h

theorem Turns.turned (h : s.Turns i c t) (ha : Attended i c s.tasks) : Turned i c s.tasks t := by
  cases h with
  | took hcan => exact turned_take ha hcan _
  | resumed hwake => exact turned_resume ha hwake

end System

/-- A controller that made no turn is where it was. -/
structure Controller.Stays (c c' : Controller) : Prop where
  plan : c'.plan = c.plan
  state : c'.state = c.state
  callback : c'.callback.map Callback.phase = c.callback.map Callback.phase

theorem Controller.Stays.refl (c : Controller) : c.Stays c := ⟨rfl, rfl, rfl⟩

theorem Controller.stays_told (c : Controller) (messages : List Message) :
    c.Stays (c.told messages) :=
  ⟨c.told_plan messages, c.told_state messages, by rw [c.told_callback]⟩

theorem Controller.Noticed.stays {c c' : Controller} (h : c.Noticed c') : c.Stays c' := by
  rcases h with rfl | rfl
  · exact .refl c'
  · refine ⟨rfl, rfl, ?_⟩
    rw [alarm, Option.map_map]
    congr 1
    funext callback
    dsimp only [Function.comp_apply]
    split <;> rfl

namespace System

variable {s s' : System} {x : Stimulus} {i : Nat} {c c' : Controller} {t : Turn}
  {happened : List Stimulus}

/-- Every controller is where it was, or it was just launched. -/
structure AllStay (s s' : System) : Prop where
  length : s.controllers.length ≤ s'.controllers.length
  stays : ∀ {i : Nat} {c' : Controller}, s'.controllers[i]? = some c' →
    (∃ c, s.controllers[i]? = some c ∧ c.Stays c') ∨
      (s.controllers.length ≤ i ∧ c'.state = .waiting ∧ c'.callback = none)

theorem AllStay.of_eq (h : s'.controllers = s.controllers) : s.AllStay s' :=
  ⟨Nat.le_of_eq (congrArg List.length h.symm), fun {_ c'} hc' => .inl ⟨c', h ▸ hc', .refl c'⟩⟩

theorem AllStay.of_tells (h : Tells s.controllers s'.controllers) : s.AllStay s' := by
  refine ⟨h.length, fun {i c'} hc' => ?_⟩
  obtain ⟨messages, ⟨c, hc, rfl⟩ | ⟨hlen, plan, ticket, rfl⟩⟩ := h.told hc'
  · exact .inl ⟨c, hc, c.stays_told messages⟩
  · exact .inr ⟨hlen, Controller.told_state _ messages, Controller.told_callback _ messages⟩

theorem Calm.allStay (h : s.Calm s') : s.AllStay s' := by
  refine ⟨Nat.le_of_eq (length_of_rel h.controllers).symm, fun {i c'} hc' => ?_⟩
  obtain ⟨c, hc, hn⟩ := h.exists_controller hc'
  exact .inl ⟨c, hc, hn.stays⟩

theorem Joins.allStay {task : Task} {outcome : Except Failure Unit} {id : Nat}
    (h : s.Joins task outcome id s') : s.AllStay s' := by
  refine ⟨Nat.le_of_eq (length_of_map h.controllers).symm, fun {i c'} hc' => ?_⟩
  rw [h.controllers] at hc'
  obtain ⟨c, hc, rfl⟩ := Option.map_eq_some_iff.mp hc'
  exact .inl ⟨c, hc, c.stays_told _⟩

theorem allStay_cancelController (s : System) (id : Nat) : s.AllStay (s.cancelController id) := by
  unfold cancelController
  split
  · exact .of_eq rfl
  · next c hc =>
      have hu := unmoved_endController (s.log .warn c.cancelText) id c
      have hcontrollers : (System.endController (s.log .warn c.cancelText) id c).controllers =
          s.controllers.set id { c with ended := true, inbox := [], install := none } :=
        hu.controllers
      refine ⟨Nat.le_of_eq (by rw [hcontrollers, List.length_set]), fun {i c'} hc' => ?_⟩
      rw [hcontrollers, List.getElem?_set] at hc'
      split at hc'
      · next hi =>
          subst hi
          obtain ⟨_, he⟩ := Option.ite_none_right_eq_some.mp hc'
          obtain rfl := Option.some.inj he
          exact .inl ⟨c, hc, rfl, rfl, rfl⟩
      · exact .inl ⟨c', hc', .refl c'⟩

theorem allStay_perform (s : System) {m : Move} (h : s.turn? (.move m) = none) :
    s.AllStay (s.perform m) := by
  unfold perform
  split
  · next hcan =>
      cases m with
      | receive => exact .of_tells (tells_receive s)
      | force => exact .of_eq (shutDown_controllers s)
      | finish => exact .of_eq (unmoved_finish s).controllers
      | take id =>
          obtain ⟨c, hc, htake⟩ := (Option.any_eq_true _ _).mp hcan
          simp [turn?_take hc htake] at h
      | resume id =>
          obtain ⟨c, hc, hresume⟩ := (Option.any_eq_true _ _).mp hcan
          obtain ⟨⟨callback, answer⟩, hwake⟩ := Option.isSome_iff_exists.mp hresume
          simp [turn?_resume hc hwake] at h
      | cancel id => exact allStay_cancelController s id
      | run id => exact (calm_runTask s id).allStay
      | join id =>
          obtain ⟨t, ht, hjoin⟩ := (Option.any_eq_true _ _).mp hcan
          obtain ⟨hw, ho⟩ := Bool.and_eq_true_iff.mp hjoin
          obtain ⟨outcome, ho⟩ := Option.isSome_iff_exists.mp ho
          exact (joins_joinTask ht hw ho).allStay
      | callOff id =>
          refine .of_eq ?_
          simp only [performNow, callOffTask]
          split
          · rfl
          · exact (unmoved_noticeEnd _).controllers
      | warn id => exact (calm_warnOverdue s id).allStay
  · exact .of_eq rfl

/-- Whatever happens that is not a turn of a controller leaves all of them where they were. -/
theorem allStay_apply (s : System) (h : s.turn? x = none) : s.AllStay (s.apply x) := by
  cases x with
  | move m => exact allStay_perform s h
  | passOver | wait | log => exact .of_eq rfl
  | elapse t => exact (calm_elapse s t).allStay
  | request origin o =>
      show s.AllStay (s.operate origin o).2
      have hs := step_operate s origin o
      generalize (s.operate origin o).2 = s' at hs ⊢
      cases hs with
      | calm hcalm => exact hcalm.allStay
      | opened _ _ hu => exact .of_eq hu.controllers
      | asked _ _ requests w _ =>
          exact .of_eq (sends_sendAll { s with world := w } requests).controllers
  | cancel => exact .of_eq (wakeAll_controllers _ _)
  | giveUp => exact .of_eq (unmoved_giveUp s).controllers

/-! ## Notices -/

/-- The report made when something happens. -/
def notices (s : System) (x : Stimulus) : List Notice :=
  match s.turn? x with
  | some (i, t) => t.reported.toList.filterMap (Request.notice? i)
  | none => []

/-- The reports made while things happen, oldest first. -/
def noticed (s : System) : List Stimulus → List Notice
  | [] => []
  | x :: rest => s.notices x ++ (s.apply x).noticed rest

/-- How many reports the container takes when something happens. -/
def heeds (s : System) (x : Stimulus) : Nat :=
  match x, s.container.inbox with
  | .move .receive, r :: _ => if s.container.isServing && r.isReport then 1 else 0
  | _, _ => 0

/-- How many reports the container takes while things happen. -/
def heeded (s : System) : List Stimulus → Nat
  | [] => 0
  | x :: rest => s.heeds x + (s.apply x).heeded rest

/-- The reports of a run that were made and not taken yet. -/
def pendingNotices (happened : List Stimulus) : List Notice :=
  (initial.noticed happened).drop (initial.heeded happened)

theorem noticed_snoc (s : System) (happened : List Stimulus) (x : Stimulus) :
    s.noticed (happened ++ [x]) = s.noticed happened ++ (s.run happened).notices x := by
  induction happened generalizing s with
  | nil => exact List.append_nil _
  | cons y happened ih =>
      rw [List.cons_append, noticed, noticed, ih, List.append_assoc]
      rfl

theorem heeded_snoc (s : System) (happened : List Stimulus) (x : Stimulus) :
    s.heeded (happened ++ [x]) = s.heeded happened + (s.run happened).heeds x := by
  induction happened generalizing s with
  | nil => exact (Nat.zero_add _).symm
  | cons y happened ih =>
      rw [List.cons_append, heeded, heeded, ih, Nat.add_assoc]
      rfl

theorem notices_of_none (h : s.turn? x = none) : s.notices x = [] := by
  rw [notices, h]

theorem heeds_of_ne (h : x ≠ .move .receive) : s.heeds x = 0 := by
  unfold heeds
  split
  · exact absurd rfl h
  · rfl

theorem heeds_receive {r : Request} {rest : List Request} (hs : s.container.isServing = true)
    (hi : s.container.inbox = r :: rest) :
    s.heeds (.move .receive) = if r.isReport then 1 else 0 := by
  simp [heeds, hi, hs]

end System

/-! ## What controllers report -/

/-- A callback is suspended only in a state in which it is under way. -/
def Controller.CallsInState (c : Controller) : Prop :=
  ∀ callback, c.callback = some callback → callback.phase.In c.state

/-- What a turn of a controller reports: nothing, or the state it leads to. -/
structure Turn.Reports (c : Controller) (t : Turn) : Prop where
  plan : t.controller.plan = c.plan
  calls : t.controller.CallsInState
  phase : c.state.phase ≤ t.controller.state.phase
  suspended : t.controller.callback.isSome = true →
    c.callback.isSome = true ∨ c.state.phase < t.controller.state.phase
  reported : t.reported = none ∨
    (t.reported = some (.report c.plan.name t.controller.state
        (if t.controller.state = .started then some c.plan.value else none)) ∧
      t.controller.callback = none ∧ t.controller.state ≠ .waiting ∧ c.state ≠ .removed ∧
      (c.callback.isSome = true ∨ c.state.phase < t.controller.state.phase))

theorem Moves.mem_completeStart {interruptible : Bool} {s next : State} {x : Signal}
    {effects : List Effect} (h : Moves interruptible s x next effects) :
    .completeStart ∈ effects ↔ next = .started := by
  cases h <;> simp

section Turn

variable {c : Controller} {t : Turn} {w : World} {rest : List Message} {next : State}
  {effects : List Effect} {e : Event}

theorem Turn.Skipped.reports (h : t.Skipped w c rest) (hc : c.CallsInState) : t.Reports c := by
  refine ⟨?_, ?_, ?_, fun hs => .inl ?_, .inl h.reported⟩
  · rw [h.controller]
  · rw [h.controller]
    exact hc
  · exact Nat.le_of_eq (by rw [h.controller])
  · rwa [h.controller] at hs

theorem Turn.Moved.reports_state (h : t.Moved w c rest next effects)
    (hm : Moves c.interruptible c.state e.signal next effects) : t.Reports c := by
  refine ⟨h.plan, fun callback hcallback => ?_, h.state ▸ hm.phase_le,
    fun hs => .inr (h.state ▸ h.phase_lt hm hs), ?_⟩
  · have hleft := h.left
    rw [h.state]
    split at hleft
    · next phase hcall =>
        rw [hleft.phase_eq hcallback]
        exact hm.call_in hcall
    · simp [hleft.2.1] at hcallback
  have hreported := h.reported
  split at hreported
  · exact .inl hreported
  · next hno =>
      obtain ⟨hne, hnone⟩ := not_or.mp hno
      have hle := hm.phase_le
      refine .inr ⟨?_, by simpa using hnone, ?_, ?_, .inr ?_⟩
      · simp only [hreported, hm.mem_completeStart, h.state]
      · exact h.state ▸ hm.ne_waiting
      · intro hr
        rw [hr] at hm
        exact hne (by rw [hm.removed, hr])
      · rw [h.state]
        omega

theorem Turn.Resumed.reports_state {callback : Callback} (h : t.Resumed w c callback.phase)
    (hc : c.callback = some callback) (hcalls : c.CallsInState) : t.Reports c := by
  have hsome : c.callback.isSome = true := by rw [hc]; rfl
  have hin := hcalls callback hc
  have hphase : c.state.phase = 1 ∨ c.state.phase = 4 := by
    unfold Phase.In at hin
    cases hp : callback.phase <;> simp [hin, hp]
  have hnot : ∀ state : State, state.phase ≠ 1 → state.phase ≠ 4 → c.state ≠ state := by
    rintro state h1 h4 rfl
    omega
  refine ⟨h.alike.plan, fun callback' hcallback => ?_,
    Nat.le_of_eq (congrArg State.phase h.alike.state.symm), fun _ => .inl hsome, ?_⟩
  · rw [h.came.phase_eq hcallback, h.alike.state]
    exact hin
  have hreported := h.reported
  split at hreported
  · exact .inl hreported
  · next hnone =>
      refine .inr ⟨?_, by simpa using hnone, ?_, hnot .removed (by decide) (by decide), .inl hsome⟩
      · rw [hreported, h.alike.state, if_neg (hnot .started (by decide) (by decide))]
      · rw [h.alike.state]
        exact hnot .waiting (by decide) (by decide)

end Turn

/-- What a controller has reported, oldest first. -/
structure Controller.HasReported (c : Controller) (l : List Notice) : Prop where
  calls : c.CallsInState
  ascending : l.Pairwise fun x y => x.state.phase < y.state.phase
  upTo : ∀ x ∈ l, x.state.phase ≤ c.state.phase
  suspended : c.callback.isSome = true → ∀ x ∈ l, x.state.phase < c.state.phase
  lawful : ∀ x ∈ l, x.name = c.plan.name ∧ x.state ≠ .waiting ∧
    x.value = if x.state = .started then some c.plan.value else none

namespace Controller.HasReported

variable {c c' : Controller} {l : List Notice} {t : Turn}

theorem nil (h : c.callback = none) : c.HasReported [] :=
  ⟨by simp [CallsInState, h], .nil, by simp, by simp, by simp⟩

theorem stays (h : c.HasReported l) (hc : c.Stays c') : c'.HasReported l := by
  have hsome : c'.callback.isSome = c.callback.isSome := by
    simpa using congrArg Option.isSome hc.callback
  refine ⟨fun callback' hcallback => ?_, h.ascending, ?_, ?_, ?_⟩
  · have hphase := hc.callback
    rw [hcallback, Option.map_some] at hphase
    obtain ⟨callback, hold, hphase⟩ := Option.map_eq_some_iff.mp hphase.symm
    rw [← hphase, hc.state]
    exact h.calls callback hold
  · rw [hc.state]
    exact h.upTo
  · rw [hc.state, hsome]
    exact h.suspended
  · rw [hc.plan]
    exact h.lawful

/-- What a turn reports leads on from what was reported before. -/
theorem turn (h : c.HasReported l) (ht : t.Reports c) (i task : Nat) :
    (t.final task).HasReported (l ++ t.reported.toList.filterMap (Request.notice? i)) := by
  have hlater : c.callback.isSome = true ∨ c.state.phase < t.controller.state.phase →
      ∀ x ∈ l, x.state.phase < t.controller.state.phase := by
    rintro (hs | hlt) x hx
    · exact Nat.lt_of_lt_of_le (h.suspended hs x hx) ht.phase
    · exact Nat.lt_of_le_of_lt (h.upTo x hx) hlt
  have hcalls : (t.final task).CallsInState := by
    unfold CallsInState
    rw [Turn.final_state, Turn.final_callback]
    exact ht.calls
  have hold : t.reported = none → (t.final task).HasReported l := fun _ => by
    refine ⟨hcalls, h.ascending, ?_, ?_, ?_⟩ <;>
      simp only [Turn.final_state, Turn.final_callback, Turn.final_plan, ht.plan]
    · exact fun x hx => Nat.le_trans (h.upTo x hx) ht.phase
    · exact fun hs => hlater (ht.suspended hs)
    · exact h.lawful
  rcases ht.reported with hnone | ⟨hnew, hcallback, hne, -, hlt⟩
  · rw [hnone, Option.toList_none, List.filterMap_nil, List.append_nil]
    exact hold hnone
  · rw [hnew]
    show HasReported _ (l ++ [_])
    refine ⟨hcalls, List.pairwise_append.mpr ⟨h.ascending, List.pairwise_singleton _ _, ?_⟩,
      ?_, ?_, ?_⟩ <;> simp only [Turn.final_state, Turn.final_callback, Turn.final_plan, ht.plan,
        List.mem_append, List.mem_singleton]
    · rintro x hx y rfl
      exact hlater hlt x hx
    · rintro x (hx | rfl)
      · exact Nat.le_of_lt (hlater hlt x hx)
      · exact Nat.le_refl _
    · simp [hcallback]
    · rintro x (hx | rfl)
      · exact h.lawful x hx
      · exact ⟨rfl, hne, rfl⟩

end Controller.HasReported

namespace System

variable {s s' : System} {x : Stimulus} {i : Nat} {c c' : Controller} {t : Turn}
  {happened : List Stimulus}

theorem Turns.reports (h : s.Turns i c t) (hc : c.CallsInState) : t.Reports c := by
  cases h with
  | took hcan =>
      rcases Controller.take_cases hcan i s.world with
        ⟨_, _, _, _, _, hskipped⟩ | ⟨_, _, _, _, _, hm, hmoved⟩
      · exact hskipped.reports hc
      · exact hmoved.reports_state hm
  | resumed hwake =>
      exact (Controller.resume_resumed hwake i).reports_state
        (Controller.callback_of_wakeUp? hwake) hc

theorem notices_of_turn (h : s.turn? x = some (i, t)) :
    s.notices x = t.reported.toList.filterMap (Request.notice? i) := by
  rw [notices, h]

theorem sender_of_turn (h : s.turn? x = some (i, t)) {y : Notice} (hy : y ∈ s.notices x) :
    y.sender = i := by
  rw [notices_of_turn h] at hy
  obtain ⟨r, _, hr⟩ := List.mem_filterMap.mp hy
  cases r <;> simp [Request.notice?] at hr
  rw [← hr]

/-- What each controller has reported in a run. -/
structure Recorded (happened : List Stimulus) : Prop where
  reported : ∀ {i : Nat} {c : Controller}, (initial.run happened).controllers[i]? = some c →
    c.HasReported ((initial.noticed happened).filter (·.sender = i))
  known : ∀ y ∈ initial.noticed happened, y.sender < (initial.run happened).controllers.length

theorem Recorded.unturned (h : Recorded happened) (hx : (initial.run happened).turn? x = none) :
    Recorded (happened ++ [x]) := by
  obtain ⟨hlen, hstay⟩ := allStay_apply (initial.run happened) hx
  rw [← run_snoc] at hlen hstay
  have hsame : initial.noticed (happened ++ [x]) = initial.noticed happened := by
    rw [noticed_snoc, notices_of_none hx, List.append_nil]
  refine ⟨fun {i c'} hc' => ?_, fun y hy => Nat.lt_of_lt_of_le (h.known y (hsame ▸ hy)) hlen⟩
  rw [hsame]
  rcases hstay hc' with ⟨c, hc, hstays⟩ | ⟨hi, -, hcallback⟩
  · exact (h.reported hc).stays hstays
  · -- a controller just launched has reported nothing
    have hnil : (initial.noticed happened).filter (·.sender = i) = [] := by
      simp only [List.filter_eq_nil_iff, decide_eq_true_eq]
      intro y hy hyi
      have := h.known y hy
      omega
    rw [hnil]
    exact .nil hcallback

theorem Recorded.turn (h : Recorded happened)
    (hx : (initial.run happened).turn? x = some (i, t)) : Recorded (happened ++ [x]) := by
  obtain ⟨c, hc, hturns, happly⟩ := turns_of_turn? hx
  have hid := (List.getElem?_eq_some_iff.mp hc).1
  have ha := applies_applyTurn (t := t) hid
  rw [← happly, ← run_snoc] at ha
  refine ⟨fun {j c'} hc' => ?_, fun y hy => ?_⟩
  · rw [noticed_snoc, List.filter_append]
    rcases ha.cases_controller hc' with ⟨rfl, rfl⟩ | ⟨hj, hc'⟩
    · have hself : ((initial.run happened).notices x).filter (·.sender = i) =
          (initial.run happened).notices x := by
        simpa using fun y hy => sender_of_turn hx hy
      rw [hself, notices_of_turn hx]
      exact (h.reported hc).turn (hturns.reports (h.reported hc).calls) i _
    · have hnil : ((initial.run happened).notices x).filter (·.sender = j) = [] := by
        simp only [List.filter_eq_nil_iff, decide_eq_true_eq]
        exact fun y hy hyj => hj ((sender_of_turn hx hy).symm.trans hyj)
      rw [hnil, List.append_nil]
      exact h.reported hc'
  · rw [ha.controllers, List.length_set]
    rw [noticed_snoc, List.mem_append] at hy
    rcases hy with hy | hy
    · exact h.known y hy
    · rw [sender_of_turn hx hy]
      exact hid

/-- Over every run, the reports of each controller lead on. -/
theorem recorded_run (happened : List Stimulus) : Recorded happened := by
  induction happened using List.reverseRecOn with
  | nil =>
      refine ⟨fun {i c} hc => ?_, by simp [noticed]⟩
      simp [initial, run] at hc
  | append_singleton happened x ih =>
      cases hx : (initial.run happened).turn? x with
      | none => exact ih.unturned hx
      | some turn => exact ih.turn (i := turn.1) (t := turn.2) hx

/-! ## Reports under way -/

/-- A service stays registered until its removal is reported. -/
theorem Orderly.hosts_receive (ho : s.Orderly) {r : Request} {rest : List Request}
    (hi : s.container.inbox = r :: rest) {m : Name} (hh : s.container.graph.Hosts m i)
    (hr : ∀ v, r ≠ .report m .removed v) :
    s.receive.container.graph.Hosts m i := by
  have hsound := ho.sound (mirrors_trial s)
  have hlt : i < s.trial.inboxes.length := by
    obtain ⟨n, hn, rfl⟩ := hh
    exact hsound.known hn
  rw [← ((mirrors_trial s).receive hi).1.graph]
  exact (Trial.Sound.hosts hsound (Request.not_removes hr) hlt).mpr hh

/-- A container that takes a request goes on with the rest of them, unless it is closed. -/
theorem Orderly.inbox_receive (ho : s.Orderly) {r : Request} {rest : List Request}
    (hs : s.container.isServing = true) (hi : s.container.inbox = r :: rest)
    (hst : s.receive.container.stage ≠ .closed) : s.receive.container.inbox = rest := by
  refine (ho.receive_inbox hs hi).resolve_right fun ⟨_, hno⟩ => ?_
  have hstage := (ho.proceeds_receive hs hi).stage
  cases hstage' : s.receive.container.stage <;>
    cases hstage'' : s.container.stage <;> simp_all [Container.isServing]

/-- A controller that is not removed is registered. -/
theorem Orderly.hosts_of_ne_removed (ho : s.Orderly) (hc : s.controllers[i]? = some c)
    (h : c.state ≠ .removed) : s.container.graph.Hosts c.plan.name i := by
  have hsome : ∃ m, s.container.graph.Hosts m i := by
    by_contra hno
    exact h (ho.consistent.gone hc (not_exists.mp hno))
  obtain ⟨m, n, hn, rfl⟩ := hsome
  obtain ⟨b, hb, hl⟩ := ho.consistent.linked hn
  obtain rfl := Option.some.inj (hc.symm.trans hb)
  exact ⟨n, hl.name.symm ▸ hn, rfl⟩

theorem filter_sent {l : List Request} (hl : ∀ r ∈ l, r.isReport = false) (c : Container) :
    (c.sent l).inbox.filter Request.isReport = c.inbox.filter Request.isReport := by
  unfold Container.sent
  split
  · rw [List.filter_append, show l.filter Request.isReport = [] by simpa using hl,
      List.append_nil]
  · rfl

/-- How the reports of a run stand that were not taken yet: they are under way, each for the
incarnation that made it. -/
structure Notified (happened : List Stimulus) : Prop where
  behind : (initial.run happened).container.stage ≠ .closed →
    (initial.run happened).container.inbox.filter Request.isReport =
      (pendingNotices happened).map Notice.request
  hosted : (initial.run happened).container.stage ≠ .closed → ∀ y ∈ pendingNotices happened,
    (initial.run happened).container.graph.Hosts y.name y.sender
  taken : initial.heeded happened ≤ (initial.noticed happened).length

theorem pendingNotices_snoc (h : Notified happened) (x : Stimulus) :
    pendingNotices (happened ++ [x]) = (pendingNotices happened ++
      (initial.run happened).notices x).drop ((initial.run happened).heeds x) := by
  rw [pendingNotices, noticed_snoc, heeded_snoc, ← List.drop_drop,
    List.drop_append_of_le_length h.taken]
  rfl

/-- A step that neither makes nor takes a report. -/
theorem Notified.quiet (h : Notified happened) (hx : (initial.run happened).turn? x = none)
    (hheeds : (initial.run happened).heeds x = 0)
    (hcontainer : (initial.run (happened ++ [x])).container.stage ≠ .closed →
      (initial.run happened).container.stage ≠ .closed ∧
      (initial.run (happened ++ [x])).container.inbox.filter Request.isReport =
        (initial.run happened).container.inbox.filter Request.isReport ∧
      (initial.run (happened ++ [x])).container.graph = (initial.run happened).container.graph) :
    Notified (happened ++ [x]) := by
  have hsame : pendingNotices (happened ++ [x]) = pendingNotices happened := by
    rw [pendingNotices_snoc h, hheeds, notices_of_none hx, List.append_nil, List.drop_zero]
  refine ⟨fun hst => ?_, fun hst => ?_, ?_⟩
  · obtain ⟨hst, hi, -⟩ := hcontainer hst
    rw [hi, hsame, h.behind hst]
  · obtain ⟨hst, -, hg⟩ := hcontainer hst
    rw [hsame, hg]
    exact h.hosted hst
  · rw [noticed_snoc, heeded_snoc, hheeds, List.length_append]
    exact Nat.le_trans h.taken (Nat.le_add_right _ _)

/-- Of two reports under way for one service, the later leads on. -/
theorem Notified.lt_of_pending (h : Notified happened)
    (hst : (initial.run happened).container.stage ≠ .closed) {z y : Notice} {l : List Notice}
    (hl : pendingNotices happened = z :: l) (hy : y ∈ l) (hname : z.name = y.name) :
    z.state.phase < y.state.phase := by
  have hmem : y ∈ pendingNotices happened := hl ▸ List.mem_cons_of_mem _ hy
  have hsender : z.sender = y.sender := by
    obtain ⟨n, hn, hni⟩ := h.hosted hst z (hl ▸ List.mem_cons_self)
    obtain ⟨n', hn', hni'⟩ := h.hosted hst y hmem
    rw [hname, hn'] at hn
    rw [← hni, ← hni', Option.some.inj hn]
  obtain ⟨c, hc⟩ : ∃ c, (initial.run happened).controllers[y.sender]? = some c :=
    ⟨_, List.getElem?_eq_getElem ((recorded_run happened).known y (List.mem_of_mem_drop hmem))⟩
  have hsub : List.Sublist ((z :: l).filter (·.sender = y.sender))
      ((initial.noticed happened).filter (·.sender = y.sender)) :=
    hl ▸ (List.drop_sublist _ _).filter _
  have hascending := ((recorded_run happened).reported hc).ascending.sublist hsub
  rw [List.filter_cons_of_pos (by simpa using hsender)] at hascending
  exact List.rel_of_pairwise_cons hascending (List.mem_filter.mpr ⟨hy, by simp⟩)

/-- The container takes a request. -/
theorem Notified.receive (h : Notified happened) (ho : (initial.run happened).Orderly)
    {r : Request} {rest : List Request} (hserving : (initial.run happened).container.isServing = true)
    (hi : (initial.run happened).container.inbox = r :: rest) :
    Notified (happened ++ [.move .receive]) := by
  have hopen : (initial.run happened).container.stage ≠ .closed := by
    rcases isServing_iff.mp hserving with hst | hst <;> simp [hst]
  have hbehind := h.behind hopen
  have hnone : (initial.run happened).notices (.move .receive) = [] := rfl
  have hpending := pendingNotices_snoc h (.move .receive)
  rw [hnone, List.append_nil, heeds_receive hserving hi] at hpending
  have hafter : initial.run (happened ++ [.move .receive]) = (initial.run happened).receive := by
    rw [run_snoc]
    simp [apply, perform, performNow, canMove, hserving, hi]
  rw [hi, List.filter_cons] at hbehind
  refine ⟨fun hst => ?_, fun hst => ?_, ?_⟩
  · rw [hafter] at hst ⊢
    rw [ho.inbox_receive hserving hi hst, hpending, List.map_drop, ← hbehind]
    split <;> rfl
  · rw [hafter]
    intro y hy
    have hmem : y ∈ pendingNotices happened := List.mem_of_mem_drop (hpending ▸ hy)
    refine ho.hosts_receive hi (h.hosted hopen y hmem) ?_
    -- a service whose removal is reported reports nothing afterwards
    rintro v rfl
    have hreport : (Request.report y.name State.removed v).isReport = true := rfl
    rw [if_pos hreport] at hbehind hpending
    obtain ⟨z, l, hl⟩ : ∃ z l, pendingNotices happened = z :: l := by
      cases hl : pendingNotices happened with
      | nil => simp [hl] at hbehind
      | cons z l => exact ⟨z, l, rfl⟩
    rw [hl] at hpending hbehind
    obtain ⟨hname, hstate, -⟩ := Request.report.inj (List.cons.inj hbehind.symm).1
    rw [hpending] at hy
    have hlt := h.lt_of_pending hopen hl hy hname
    rw [hstate] at hlt
    exact absurd y.state.phase_le_five (Nat.not_le.mpr hlt)
  · rw [noticed_snoc, heeded_snoc, hnone, List.append_nil, heeds_receive hserving hi]
    have htaken := h.taken
    split
    · next hr =>
        rw [if_pos hr] at hbehind
        have hlen := congrArg List.length hbehind
        simp only [List.length_cons, List.length_map, pendingNotices, List.length_drop] at hlen
        omega
    · exact htaken

/-- A controller makes a turn. -/
theorem Notified.turn (h : Notified happened) (ho : (initial.run happened).Orderly)
    (hx : (initial.run happened).turn? x = some (i, t)) : Notified (happened ++ [x]) := by
  obtain ⟨c, hc, hturns, happly⟩ := turns_of_turn? hx
  have hid := (List.getElem?_eq_some_iff.mp hc).1
  have ha := applies_applyTurn (t := t) hid
  rw [← happly, ← run_snoc] at ha
  have hreports := hturns.reports ((recorded_run happened).reported hc).calls
  have hturned := hturns.turned (ho.attended hc)
  have hheeds : (initial.run happened).heeds x = 0 := by
    refine heeds_of_ne ?_
    rintro rfl
    cases hx
  have hpending := pendingNotices_snoc h x
  rw [hheeds, List.drop_zero, notices_of_turn hx] at hpending
  refine ⟨fun hst => ?_, fun hst y hy => ?_, ?_⟩
  · rw [ha.container, sent_stage] at hst
    have hold : ((initial.run happened).container.sent t.requests).inbox.filter Request.isReport =
        (pendingNotices happened).map Notice.request := by
      rw [filter_sent fun r hr => Request.isReport_eq_false (hturned.tickets r hr)]
      exact h.behind hst
    rw [ha.container, ← Container.sent_append, hpending, List.map_append, ← hold]
    rcases hreports.reported with hnone | ⟨hnew, -, -, hne, -⟩
    · rw [hnone, Option.toList_none, Container.sent_nil]
      exact (List.append_nil _).symm
    · have hserving : (initial.run happened).container.isServing = true := by
        by_contra hno
        obtain ⟨n, hn, -⟩ := ho.hosts_of_ne_removed hc hne
        simp [(ho.unserved (by simpa using hno)).1] at hn
      rw [hnew, Container.sent, if_pos (by rwa [sent_isServing]), List.filter_append]
      rfl
  · rw [ha.container, sent_graph]
    rw [ha.container, sent_stage] at hst
    rw [hpending, List.mem_append] at hy
    rcases hy with hy | hy
    · exact h.hosted hst y hy
    · rcases hreports.reported with hnone | ⟨hnew, -, -, hne, -⟩
      · simp [hnone] at hy
      · rw [hnew] at hy
        obtain rfl := List.mem_singleton.mp hy
        exact ho.hosts_of_ne_removed hc hne
  · rw [noticed_snoc, heeded_snoc, hheeds, List.length_append]
    exact Nat.le_trans h.taken (Nat.le_add_right _ _)

/-- A container that cannot take a request stays as it is. -/
theorem receive_cases (s : System) : (∃ r rest, s.container.isServing = true ∧
    s.container.inbox = r :: rest) ∨
    (s.heeds (.move .receive) = 0 ∧ s.apply (.move .receive) = s) := by
  cases hi : s.container.inbox with
  | nil => exact .inr ⟨by simp [heeds, hi], by simp [apply, perform, canMove, hi]⟩
  | cons r rest =>
      by_cases hs : s.container.isServing = true
      · exact .inl ⟨r, rest, hs, rfl⟩
      · exact .inr ⟨by simp [heeds, hi, hs], by simp [apply, perform, canMove, hs]⟩

theorem Notified.step (h : Notified happened) (ho : (initial.run happened).Orderly)
    (hs : Step (initial.run happened) x (initial.run (happened ++ [x]))) :
    Notified (happened ++ [x]) := by
  cases hx : (initial.run happened).turn? x with
  | some turn => exact h.turn ho (i := turn.1) (t := turn.2) hx
  | none =>
      by_cases hreceive : x = .move .receive
      · subst hreceive
        rcases receive_cases (initial.run happened) with ⟨r, rest, hserving, hi⟩ | ⟨hheeds, happly⟩
        · exact h.receive ho hserving hi
        · refine h.quiet hx hheeds fun hst => ?_
          rw [run_snoc, happly] at hst ⊢
          exact ⟨hst, rfl, rfl⟩
      · refine h.quiet hx (heeds_of_ne hreceive) ?_
        generalize initial.run (happened ++ [x]) = s' at hs
        generalize initial.run happened = s at hs hx
        cases hs with
        | calm hcalm =>
            rw [hcalm.container]
            exact fun hst => ⟨hst, rfl, rfl⟩
        | opened origin hst hu =>
            rw [hu.container]
            exact fun _ => ⟨by simp [hst], rfl, rfl⟩
        | asked origin o requests w ha =>
            rw [(sends_sendAll { s with world := w } requests).container, sent_stage, sent_graph,
              filter_sent fun r hr => Request.isReport_eq_false (ha.ticket_isSome r hr)]
            exact fun hst => ⟨hst, rfl, rfl⟩
        | received request rest hserving hi => exact absurd rfl hreceive
        | finished hst hq =>
            rw [(unmoved_finish s).container]
            exact fun hno => absurd hst hno
        | took id c hc hcan => simp [turn?_take hc hcan] at hx
        | resumed id c callback answer hc hwake => simp [turn?_resume hc hwake] at hx
        | joined id task outcome hj =>
            rw [hj.container]
            exact fun hst => ⟨hst, rfl, rfl⟩

theorem notified_run (hx : ∀ x ∈ happened, x ≠ .cancel) : Notified happened := by
  refine run_induction ?_ (fun ho hs h => h.step ho hs) hx
  exact ⟨fun _ => rfl, by simp [pendingNotices, noticed], Nat.le_refl _⟩

/-- How controllers report in a run, and whom the container takes their reports in for. -/
structure ReportsOwn (happened : List Stimulus) : Prop where
  /-- A controller reports states in the order of the lifecycle, and none of them twice. -/
  ascending (i : Nat) : ((initial.noticed happened).filter (·.sender = i)).Pairwise
    fun y z => y.state.phase < z.state.phase
  /-- A report names the service of its controller, and shows its value exactly if it started. -/
  lawful : ∀ y ∈ initial.noticed happened, ∃ c : Controller,
    (initial.run happened).controllers[y.sender]? = some c ∧ y.name = c.plan.name ∧
    y.state ≠ .waiting ∧ y.value = if y.state = .started then some c.plan.value else none
  /-- The reports under way are those made and not taken, in the order in which they were made,
  and who made one is still registered under its name. -/
  underway : (∀ x ∈ happened, x ≠ .cancel) → (initial.run happened).container.stage ≠ .closed →
    (initial.run happened).container.inbox.filter Request.isReport =
      (pendingNotices happened).map Notice.request ∧
    ∀ y ∈ pendingNotices happened, (initial.run happened).container.graph.Hosts y.name y.sender
  /-- A report is taken in for the incarnation that made it. -/
  taken : (∀ x ∈ happened, x ≠ .cancel) → ∀ {before after : List Stimulus} {rest : List Request}
    {name : Name} {state : State} {value : Option Value},
    happened = before ++ .move .receive :: after →
    (initial.run before).container.inbox = .report name state value :: rest →
    ∃ i, (pendingNotices before).head? = some ⟨i, name, state, value⟩ ∧
      (initial.run before).container.graph.Hosts name i

/-- Reports never pass from one incarnation of a service to another. -/
theorem reportsOwn_run (happened : List Stimulus) : ReportsOwn happened := by
  have hrecorded := recorded_run happened
  have hcontroller : ∀ y ∈ initial.noticed happened, ∃ c : Controller,
      (initial.run happened).controllers[y.sender]? = some c := fun y hy =>
    ⟨_, List.getElem?_eq_getElem (hrecorded.known y hy)⟩
  refine ⟨fun i => ?_, fun y hy => ?_, fun hx hst => ?_, ?_⟩
  · cases hc : (initial.run happened).controllers[i]? with
    | some c => exact (hrecorded.reported hc).ascending
    | none =>
        have hnil : (initial.noticed happened).filter (·.sender = i) = [] := by
          simp only [List.filter_eq_nil_iff, decide_eq_true_eq]
          rintro y hy rfl
          obtain ⟨c, hsome⟩ := hcontroller y hy
          simp [hc] at hsome
        rw [hnil]
        exact .nil
  · obtain ⟨c, hc⟩ := hcontroller y hy
    exact ⟨c, hc, (hrecorded.reported hc).lawful y (List.mem_filter.mpr ⟨hy, by simp⟩)⟩
  · exact ⟨(notified_run hx).behind hst, (notified_run hx).hosted hst⟩
  · rintro hx before after rest name state value rfl hi
    have hxb : ∀ x ∈ before, x ≠ .cancel := fun x hxb => hx x (List.mem_append_left _ hxb)
    have hnotified := notified_run hxb
    have hst : (initial.run before).container.stage ≠ .closed := by
      intro hst
      simp [((orderly_run hxb).unserved (by simp [Container.isServing, hst])).2] at hi
    have hbehind := hnotified.behind hst
    rw [hi, List.filter_cons_of_pos rfl] at hbehind
    obtain ⟨z, l, hl, hz, -⟩ := List.map_eq_cons_iff.mp hbehind.symm
    obtain ⟨rfl, rfl, rfl⟩ := Request.report.inj hz
    exact ⟨z.sender, by rw [hl]; rfl, hnotified.hosted hst z (hl ▸ List.mem_cons_self)⟩

/-- A service is removed and another is installed under its name, whose first reports are under
way. -/
def baseReturns : List Stimulus :=
  [.request (.request 0) .start, .request (.request 1) (.install (plainService "base" []))] ++
  turns 4 1 ++ .request (.request 2) (.remove "base") :: turns 8 1 ++
  [.request (.request 3) (.install (plainService "base" [])), .move .receive, .move (.take 1),
    .move (.take 1)]

theorem reportsOwn_baseReturns : (∀ x ∈ baseReturns, x ≠ .cancel) ∧
    (initial.run baseReturns).container.stage = .opened ∧
    (initial.noticed baseReturns).map (fun y => (y.sender, y.state)) =
      [(0, .starting false), (0, .started), (0, .draining), (0, .stopping), (0, .removed),
        (1, .starting false), (1, .started)] ∧
    pendingNotices baseReturns =
      [⟨1, "base", .starting false, none⟩, ⟨1, "base", .started, some .unit⟩] ∧
    ReportsOwn baseReturns := by
  refine ⟨fun x hx => ?_, by decide +kernel, by decide +kernel, by decide +kernel,
    reportsOwn_run baseReturns⟩
  simp only [baseReturns, List.mem_append, List.mem_cons] at hx
  rcases hx with (((rfl | rfl | hx) | hx) | rfl | hx) | rfl | rfl | rfl | rfl | hx
  any_goals exact not_cancel_turns _ _ x hx
  any_goals cases hx
  all_goals simp

end System

end ServiceHost
