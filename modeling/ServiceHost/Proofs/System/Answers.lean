import ServiceHost.Proofs.System.Effects

/-! # What installers are told

The promise made to an installer is kept by the effect that completes the start or breaks it, with
the answer that effect gives. So the controller has it to keep as long as its service waits or is
starting, and no longer. -/

namespace ServiceHost

/-- The answer an installer is given if the start came to nothing. -/
def StartAbort.error (why : StartAbort) (name : Name) (event : Event) : Error :=
  match why, event with
  | .failed, .startFailed source => .startFailure name source
  | .removedWhileStarting, _ => .removedWhileStarting name
  | _, _ => .interrupted name

/-- What an effect tells the installer of a service. -/
def Effect.answer? (plan : Plan) (event : Event) : Effect → Option (Except Error Answer)
  | .completeStart => some (.ok (Turn.startAnswer plan))
  | .failStart why => some (.error (why.error plan.name event))
  | _ => none

/-- What the oldest message before a controller makes it tell the installer. -/
def Controller.answer? (c : Controller) : Option (Except Error Answer) :=
  match c.inbox with
  | .lifecycle e :: _ => c.effects.findSome? (Effect.answer? c.plan e)
  | _ => none

/-- The world once a promise is settled, if there is one and there is an answer. -/
def World.answered (w : World) (install : Option Ticket) (answer : Option (Except Error Answer)) :
    World :=
  match install, answer with
  | some ticket, some outcome => w.settle ticket outcome
  | _, _ => w

namespace Turn

/-- A turn goes on, and tells the installer this much. -/
structure Replies (t : Turn) (answer : Option (Except Error Answer)) (t' : Turn) : Prop where
  plan : t'.controller.plan = t.controller.plan
  install : t'.controller.install = if answer.isSome then none else t.controller.install
  asks : ∃ w asked, w.pledges = (t.world.answered t.controller.install answer).pledges ∧
    t'.requests = t.requests ++ asked ∧ Asked w asked t'.world

variable {t t' t'' : Turn} {phase : Phase} {answer : Option (Except Error Answer)}

theorem answered_none (w : World) (install : Option Ticket) : w.answered install none = w := by
  cases install <;> rfl

/-- A turn in which nobody is told anything. -/
theorem Replies.of_same (hp : t'.controller.plan = t.controller.plan)
    (hi : t'.controller.install = t.controller.install) (hr : t'.requests = t.requests)
    (hw : t'.world.pledges = t.world.pledges) : t.Replies none t' :=
  ⟨hp, hi, t.world, [], by rw [answered_none], by rw [hr, List.append_nil], .of_eq hw⟩

theorem Replies.runs (h : t.Replies answer t') (hr : t'.Runs phase t'') : t.Replies answer t'' := by
  obtain ⟨w, asked, hw, hreq, hasked⟩ := h.asks
  obtain ⟨asked', hreq', hasked'⟩ := hr.asks
  refine ⟨hr.alike.plan.trans h.plan, hr.alike.install.trans h.install, w, asked ++ asked', hw, ?_,
    hasked.trans hasked'⟩
  rw [hreq', hreq, List.append_assoc]

theorem Replies.emit (h : t.Replies answer t') (e : Event) : t.Replies answer (t'.emit e) :=
  ⟨h.plan, h.install, h.asks⟩

theorem replies_answerInstall (t : Turn) (o : Except Error Answer) :
    t.Replies (some o) (t.answerInstall o) := by
  unfold answerInstall
  cases hi : t.controller.install with
  | none => exact ⟨rfl, hi, t.world, [], by rw [hi]; rfl, by simp, .of_eq rfl⟩
  | some ticket =>
      exact ⟨rfl, rfl, t.world.settle ticket o, [], by rw [hi]; rfl, by simp, .of_eq rfl⟩

/-- A turn that begins like another, but for what is recorded and logged. -/
theorem Replies.of_world {t₁ : Turn} (h : t₁.Replies answer t') {w : World}
    (ht : t₁ = { t with world := w }) (hw : w.pledges = t.world.pledges) : t.Replies answer t' := by
  subst ht
  obtain ⟨w', asked, hw', hreq, hasked⟩ := h.asks
  refine ⟨h.plan, h.install, w', asked, hw'.trans ?_, hreq, hasked⟩
  unfold World.answered
  cases t.controller.install with
  | none => exact hw
  | some ticket =>
      cases answer with
      | none => exact hw
      | some o => exact settle_pledges_congr hw ticket o

theorem replies_completeStart (t : Turn) :
    t.Replies (some (.ok (startAnswer t.controller.plan))) t.completeStart := by
  unfold completeStart
  split
  · exact (replies_answerInstall _ _).of_world rfl rfl
  · exact replies_answerInstall t _

theorem replies_failStart (t : Turn) (why : StartAbort) (event : Event) :
    t.Replies (some (.error (why.error t.controller.plan.name event))) (t.failStart why event) := by
  have hname : t.controller.plan.name = t.controller.name := rfl
  unfold failStart
  dsimp only
  split
  · exact (replies_answerInstall _ _).of_world rfl rfl
  · exact replies_answerInstall t _
  · next hfailed hremoved =>
      have herror : why.error t.controller.plan.name event = .interrupted t.controller.name := by
        unfold StartAbort.error
        split <;> simp_all
      rw [herror]
      exact replies_answerInstall t _

/-- The installer is told what the effects of a move tell. -/
theorem replies_foldl (t : Turn) (id : Nat) {event : Event} {state next : State}
    {interruptible : Bool} {effects : List Effect}
    (h : Moves interruptible state event.signal next effects) (hid : t.Idle) :
    t.Replies (effects.findSome? (Effect.answer? t.controller.plan event))
      (effects.foldl (carryOut id event) t) := by
  have hstop : ∀ {t₁ : Turn} {answer : Option (Except Error Answer)} {interrupted : Bool},
      t.Replies answer t₁ → t₁.Idle → t.Replies answer (t₁.invokeStop id interrupted) := by
    intro t₁ answer interrupted hr hidle
    have hbegun : t.Replies answer { t₁ with
        calledOff := t₁.controller.pending
        controller := { t₁.controller with pending := none } } := ⟨hr.plan, hr.install, hr.asks⟩
    exact hbegun.runs (runs_callStop _ id interrupted hidle.callback hidle.deferred)
  have hfail : ∀ why, (carryOut id event t (.failStart why)).Idle := fun why =>
    (quiet_failStart t why event).idle hid
  have hsame : t.Replies none t := .of_same rfl rfl rfl rfl
  generalize hx : event.signal = x at h
  cases h with
  | start =>
      cases event with
      | dependenciesAvailable values =>
          exact hsame.runs (runs_injectAndStart t id values hid.callback hid.deferred)
      | _ => cases hx
  | abort _ | fail asked => exact (replies_failStart t _ event).emit _
  | complete => exact replies_completeStart t
  | late => exact hstop (replies_failStart t .removedWhileStarting event) (hfail _)
  | cut asked _ _ => exact hstop (replies_failStart t .interrupted event) (hfail _)
  | note asked _ _ | drain _ => exact hsame
  | release => exact hstop hsame hid
  | vanish => exact .of_same rfl rfl rfl rfl
  | last => exact .of_same rfl rfl rfl rfl

end Turn

namespace Controller

variable {c : Controller} {w : World}

open Turn in
theorem replies_take (h : c.canTake = true) (id : Nat) (w : World) :
    Replies (.begin w c) c.answer? (c.take id w) := by
  rcases take_cases h id w with ⟨message, rest, hi, _, hnone, hs⟩ | ⟨e, rest, next, hi, hc, hm, _⟩
  · have hanswer : c.answer? = none := by
      unfold answer?
      split
      · rw [hnone]
        rfl
      · rfl
    rw [hanswer]
    exact .of_same (by rw [hs.controller]; rfl) (by rw [hs.controller]; rfl) hs.requests hs.pledges
  · have hanswer : c.answer? = c.effects.findSome? (Effect.answer? c.plan e) := by
      simp [answer?, hi]
    have hid : Idle (.begin w { c with inbox := rest, state := next }) := ⟨hc, rfl, rfl, rfl, rfl⟩
    have hr := replies_foldl _ id hm hid
    rw [hanswer, take_eq hi hm]
    dsimp only
    split
    · exact ⟨hr.plan, hr.install, hr.asks⟩
    · exact ⟨hr.plan, hr.install, hr.asks⟩

open Turn in
theorem replies_resume {callback : Callback} {answer : Option (Awaited × Except Error Answer)}
    (h : c.wakeUp? w = some (callback, answer)) (id : Nat) :
    Replies (.begin w c) none (c.resume id w) := by
  have hr := resume_resumed h id
  exact ⟨hr.alike.plan, hr.alike.install, w, _, by rw [answered_none]; rfl, rfl, hr.asks⟩

end Controller

/-- Exactly the moves out of a start tell the installer something. -/
theorem Moves.answer?_isSome {interruptible : Bool} {state next : State} {x : Signal}
    {effects : List Effect} (h : Moves interruptible state x next effects) (plan : Plan)
    (event : Event) : (effects.findSome? (Effect.answer? plan event)).isSome = true ↔
      state.phase ≤ 1 ∧ 1 < next.phase := by
  cases h <;> simp [State.phase, Effect.answer?]

theorem StartAbort.error_ne_abandoned (why : StartAbort) (name : Name) (event : Event) :
    why.error name event ≠ .abandoned := by
  unfold StartAbort.error
  split <;> simp

/-- What a controller tells its installer is due to the signal it takes. -/
theorem Controller.exists_of_answer? {c : Controller} {o : Except Error Answer}
    (h : c.answer? = some o) : ∃ e : Event, e.signal ∈ c.signals ∧
      (c.state.effects (e.signal, c.interruptible)).findSome? (Effect.answer? c.plan e) =
        some o := by
  cases hi : c.inbox with
  | nil => simp [answer?, hi] at h
  | cons message rest =>
      cases message with
      | lifecycle e =>
          refine ⟨e, ?_, by simpa [answer?, effects, hi] using h⟩
          rw [c.signals_cons hi]
          simp [Message.signal?]
      | reference update => simp [answer?, hi] at h

theorem Controller.moves_of_answer? {c : Controller} {o : Except Error Answer}
    (h : c.answer? = some o) : ∃ e rest next, c.inbox = .lifecycle e :: rest ∧
      Moves c.interruptible c.state e.signal next c.effects ∧
      c.effects.findSome? (Effect.answer? c.plan e) = some o := by
  unfold answer? at h
  split at h
  · next event rest hi =>
      obtain ⟨effect, hmem, _⟩ := List.exists_of_findSome?_eq_some h
      obtain ⟨_, _, next, hi', hm⟩ := moves_of_effects hmem
      obtain ⟨he, rfl⟩ := List.cons.inj (hi.symm.trans hi')
      cases he
      exact ⟨event, rest, next, hi, hm, h⟩
  · cases h

/-- No effect gives a promise up. -/
theorem Controller.answer?_ne_abandoned (c : Controller) :
    c.answer? ≠ some (.error .abandoned) := by
  intro h
  obtain ⟨e, _, h⟩ := exists_of_answer? h
  obtain ⟨effect, _, he⟩ := List.exists_of_findSome?_eq_some h
  cases effect with
  | failStart why =>
      simp only [Effect.answer?, Option.some.injEq, Except.error.injEq] at he
      exact why.error_ne_abandoned _ _ he
  | _ => simp [Effect.answer?] at he

/-! ## One controller in one step -/

/-- A controller did not move on, whatever else it has before it. -/
structure Controller.Rests (c c' : Controller) : Prop where
  plan : c'.plan = c.plan
  state : c'.state = c.state
  install : c'.install = c.install
  ended : c'.ended = c.ended
  resolved : c'.resolved = c.resolved
  inbox : c.inbox <+: c'.inbox

/-- What a step makes of a controller: it rests, or takes a message, or is launched. -/
inductive System.Becomes (s : System) (x : System.Stimulus) (i : Nat) (c' : Controller) : Prop
  | rests {c : Controller} (hc : s.controllers[i]? = some c) (h : c.Rests c')
    (hx : s.effects x i = [])
  | takes {c : Controller} (hx : x = .move (.take i)) (hc : s.controllers[i]? = some c)
    (hcan : c.canTake = true) (h : c' = (c.take i s.world).final s.tasks.length)
  | launched (plan : Plan) (ticket : Ticket) (messages : List Message) (hx : x = .move .receive)
    (hlen : s.controllers.length ≤ i) (h : c' = (Controller.launch plan ticket).told messages)

namespace Controller

variable {c c' : Controller}

theorem Rests.refl (c : Controller) : c.Rests c := ⟨rfl, rfl, rfl, rfl, rfl, List.prefix_refl _⟩

theorem rests_told (c : Controller) (messages : List Message) : c.Rests (c.told messages) := by
  refine ⟨c.told_plan messages, c.told_state messages, c.told_install messages,
    c.told_ended messages, ?_, ?_⟩
  · unfold told
    split <;> rfl
  · unfold told
    split
    · exact List.prefix_refl _
    · exact List.prefix_append _ _

theorem Noticed.rests (h : c.Noticed c') : c.Rests c' := by
  rcases h with rfl | rfl
  · exact .refl _
  · exact ⟨rfl, rfl, rfl, rfl, rfl, List.prefix_refl _⟩

theorem final_install_eq {t : Turn} (h : t.controller.ended = false) (task : Nat) :
    (t.final task).install = t.controller.install := by
  unfold Turn.final
  rw [h]
  split
  · contradiction
  · split <;> rfl

theorem final_resolved (t : Turn) (task : Nat) :
    (t.final task).resolved = t.controller.resolved := by
  unfold Turn.final
  split
  · rfl
  · split <;> rfl

/-- A callback does not touch what its service was given. -/
theorem resume_resolved (c : Controller) (id : Nat) (w : World) :
    (c.resume id w).controller.resolved = c.resolved := by
  have hsettle : ∀ (t : Turn) (context : Context) (result : Progress × Halt),
      (t.settleCallback context result).controller.resolved = t.controller.resolved := by
    rintro t context ⟨p, halt⟩
    cases halt with
    | waiting wait rest => rfl
    | returned outcome =>
        simp only [Turn.settleCallback, Turn.conclude]
        split <;> rfl
  unfold resume
  split
  · rfl
  · dsimp only
    split
    · exact hsettle _ _ _
    · exact hsettle _ _ _

theorem rests_resume {callback : Callback} {answer : Option (Awaited × Except Error Answer)}
    {w : World} (h : c.wakeUp? w = some (callback, answer)) (hend : c.ended = false)
    (id task : Nat) :
    c.Rests ((c.resume id w).final task) := by
  have ha := (resume_resumed h id).alike
  have hno : (c.resume id w).controller.ended = false := ha.ended.trans hend
  refine ⟨?_, ?_, ?_, ?_, ?_, ?_⟩
  · rw [Turn.final_plan, ha.plan]
  · rw [Turn.final_state, ha.state]
  · rw [final_install_eq hno, ha.install]
  · rw [Turn.final_ended, ha.ended]
  · rw [final_resolved, resume_resolved]
  · rw [Turn.final_inbox, hno]
    obtain ⟨own, hi, _⟩ := (resume_resumed h id).came.own
    exact hi ▸ List.prefix_append _ _

end Controller

namespace System

variable {s s' : System} {x : Stimulus} {i : Nat} {c' : Controller}

theorem Orderly.becomes (h : s.Orderly) (hs : Step s x s')
    (hc' : s'.controllers[i]? = some c') : s.Becomes x i c' := by
  cases hs with
  | calm hcalm hx =>
      obtain ⟨c, hc, hn⟩ := hcalm.exists_controller hc'
      exact .rests hc hn.rests (effects_of_cannot hx i)
  | opened origin hst hu hw =>
      rw [hu.controllers] at hc'
      exact .rests hc' (.refl c') (effects_of_ne (by simp) i)
  | asked origin o requests w ha =>
      rw [(sends_sendAll { s with world := w } requests).controllers] at hc'
      exact .rests hc' (.refl c') (effects_of_ne (by simp) i)
  | received request rest hserving hi =>
      obtain ⟨messages, ⟨c, hc, rfl⟩ | ⟨hlen, plan, ticket, rfl⟩⟩ :=
        s.tells_receive.told hc'
      · exact .rests hc (c.rests_told messages) (effects_of_ne (by simp) i)
      · exact .launched plan ticket messages rfl hlen rfl
  | finished hst hq =>
      rw [(unmoved_finish s).controllers] at hc'
      exact .rests hc' (.refl c') (effects_of_ne (by simp) i)
  | took id c hc hcan =>
      have hid := (List.getElem?_eq_some_iff.mp hc).1
      rcases (applies_applyTurn (t := c.take id s.world) hid).cases_controller hc' with
        ⟨rfl, rfl⟩ | ⟨hi, hc'⟩
      · exact .takes rfl hc hcan rfl
      · exact .rests hc' (.refl c') (effects_take_of_ne hi)
  | resumed id c callback answer hc hwake =>
      have hid := (List.getElem?_eq_some_iff.mp hc).1
      have hnone := effects_of_ne (s := s) (x := .move (.resume id)) (by simp) i
      rw [(applies_applyTurn (t := c.resume id s.world) hid).controllers, List.getElem?_set] at hc'
      split at hc'
      · next hi =>
          subst hi
          obtain rfl := Option.some.inj hc'
          have hend : c.ended = false := by
            by_contra hend
            have hr := ((h.attended hc).ended (by simpa using hend)).1
            have hin := (h.attended hc).callback _ (Controller.callback_of_wakeUp? hwake)
            cases hphase : callback.phase <;> simp [hphase, Phase.In, hr, State.phase] at hin
          exact .rests hc (Controller.rests_resume hwake hend id _) hnone
      · exact .rests hc' (.refl c') hnone
  | joined id t outcome hj =>
      rw [hj.controllers] at hc'
      obtain ⟨c, hc, rfl⟩ := Option.map_eq_some_iff.mp hc'
      exact .rests hc (c.rests_told _) (effects_of_ne (by simp) i)

end System

/-! ## Who has a promise to keep -/

/-- A controller has the promise made to its installer as long as it waits or is starting. -/
def Controller.Owes (c : Controller) : Prop := c.install.isSome = true ↔ c.state.phase ≤ 1

theorem Controller.Owes.rests {c c' : Controller} (h : c.Owes) (hr : c.Rests c') : c'.Owes := by
  unfold Controller.Owes
  rw [hr.install, hr.state]
  exact h

theorem Controller.owes_launch (plan : Plan) (ticket : Ticket) :
    (Controller.launch plan ticket).Owes := by
  simp [Controller.Owes, Controller.launch, State.phase]

theorem Controller.Owes.install_eq_none {c : Controller} (h : c.Owes) (hr : c.state = .removed) :
    c.install = none := by
  unfold Controller.Owes at h
  simpa [hr, State.phase] using h

/-- A controller only ends in its last turn. -/
theorem Controller.removed_of_ended {c : Controller} (hcan : c.canTake = true) {id : Nat}
    {w : World} (hend : (c.take id w).controller.ended = true) : c.state = .removed := by
  have hno : c.ended = false := Controller.ended_of_canTake hcan
  rcases Controller.take_cases hcan id w with ⟨_, _, _, _, _, hs⟩ | ⟨_, _, _, _, _, hm, ht⟩
  · rw [hs.controller] at hend
    simp [hno] at hend
  · exact hm.terminate (by simpa [hend, hno] using ht.ended)

theorem Controller.Owes.take {c : Controller} (h : c.Owes) (hcan : c.canTake = true) (id : Nat)
    (w : World) (task : Nat) : ((c.take id w).final task).Owes := by
  have hreplies := c.replies_take hcan id w
  have hinstall : (c.take id w).controller.install = if c.answer?.isSome then none else c.install :=
    hreplies.install
  have hno : c.ended = false := Controller.ended_of_canTake hcan
  unfold Controller.Owes at h ⊢
  rw [Turn.final_state]
  rcases Controller.take_cases hcan id w with
    ⟨message, rest, hi, _, hnone, hs⟩ | ⟨e, rest, next, hi, hc, hm, ht⟩
  · have hend : (c.take id w).controller.ended = false := by
      rw [hs.controller]
      simp_all [Controller.canTake]
    rw [Controller.final_install_eq hend, hs.controller]
    exact h
  · have hanswer : c.answer? = c.effects.findSome? (Effect.answer? c.plan e) := by
      simp [Controller.answer?, hi]
    have hiff := hm.answer?_isSome c.plan e
    rw [← hanswer] at hiff
    rw [ht.state]
    have hle := hm.phase_le
    by_cases hend : (c.take id w).controller.ended = true
    · have hnext : 5 ≤ next.phase := by
        simpa [Controller.removed_of_ended hcan hend, State.phase] using hle
      simp [Turn.final, hend]
      omega
    · rw [Controller.final_install_eq (by simpa using hend), hinstall]
      cases ha : c.answer? with
      | none =>
          have hstill : ¬(c.state.phase ≤ 1 ∧ 1 < next.phase) := by simpa [ha] using hiff
          rw [if_neg (by simp), h]
          omega
      | some o =>
          have hleft : c.state.phase ≤ 1 ∧ 1 < next.phase := by simpa [ha] using hiff
          simp
          omega

namespace System

variable {s s' : System} {i : Nat} {c c' : Controller}

theorem Orderly.owes {x : Stimulus} (h : s.Orderly) (hs : Step s x s')
    (howes : ∀ {i : Nat} {c : Controller}, s.controllers[i]? = some c → c.Owes)
    (hc' : s'.controllers[i]? = some c') : c'.Owes := by
  cases h.becomes hs hc' with
  | rests hc hr => exact (howes hc).rests hr
  | takes hx hc hcan h => exact h ▸ (howes hc).take hcan _ _ _
  | launched plan ticket messages hx hlen h =>
      exact h ▸ (Controller.owes_launch plan ticket).rests (Controller.rests_told _ messages)

theorem owes_run {happened : List Stimulus} (hx : ∀ x ∈ happened, x ≠ .cancel)
    (hc : (initial.run happened).controllers[i]? = some c) : c.Owes := by
  refine run_induction (P := fun happened => ∀ {i : Nat} {c : Controller},
    (initial.run happened).controllers[i]? = some c → c.Owes) ?_ ?_ hx hc
  · intro i c hc
    simp [initial, run] at hc
  · exact fun ho hs h => ho.owes hs h

end System

end ServiceHost
