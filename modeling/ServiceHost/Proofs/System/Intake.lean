import ServiceHost.Proofs.Graph.Entries
import ServiceHost.Proofs.System.Injections
import ServiceHost.Proofs.System.Interruptions

/-! # What controllers take in

Controllers take the messages of the container in the order in which they were sent, each once. Those
a controller did not take yet are before it, for as long as it goes on. This holds whatever happens,
also once everyone was told to stop. -/

namespace ServiceHost

open ServiceHost.Graph (Trial TrialStep gift updatesTo)

namespace System

variable {s s' : System} {x : Stimulus} {t : Trial} {i : Nat} {c c' : Controller}

/-! ## The graph -/

theorem history_snoc (s : System) (happened : List Stimulus) (x : Stimulus) :
    s.history (happened ++ [x]) = s.history happened ++ (s.run happened).steps x := by
  induction happened generalizing s with
  | nil => simp [history, run]
  | cons y happened ih => simp [history, ih, run]

theorem mirrors_apply (ht : Mirrors t s) (x : Stimulus) :
    Mirrors ((s.steps x).foldl Trial.next t) (s.apply x) := by
  by_cases hx : x = .move .receive
  · subst hx
    rcases apply_receive s with ⟨r, rest, hserving, hi, happly⟩ | ⟨hnone, happly⟩
    · rw [steps_receive hserving hi, happly]
      exact (ht.receive hi).1
    · rw [hnone, happly]
      exact ht
  · obtain ⟨hgraph, hlength⟩ := (happens_apply s x).still hx
    rw [steps_of_ne hx]
    exact ht.congr hgraph hlength

/-- Over every run, the graph of the container is that of the trial which the run makes of it. -/
theorem mirrors_run (happened : List Stimulus) :
    Mirrors (Trial.after (initial.history happened)) (initial.run happened) := by
  induction happened using List.reverseRecOn with
  | nil => exact ⟨rfl, rfl⟩
  | append_singleton happened x ih =>
      rw [history_snoc, Trial.after, List.foldl_append, run_snoc]
      exact mirrors_apply ih x

/-! ## What is taken in a step -/

/-- The message a controller takes when something happens. -/
def taken? (s : System) : Stimulus → Nat → Option Message
  | .move (.take j), i => if j = i ∧ s.canMove (.take j) then (s.inboxOf i).head? else none
  | _, _ => none

/-- The messages a controller takes while things happen, oldest first. -/
def intake (s : System) : List Stimulus → Nat → List Message
  | [], _ => []
  | x :: rest, i => (s.taken? x i).toList ++ (s.apply x).intake rest i

theorem taken?_of_ne (hx : x ≠ .move (.take i)) : s.taken? x i = none := by
  unfold taken?
  split
  · refine if_neg fun h => hx ?_
    rw [h.1]
  · rfl

theorem taken?_of_idle (h : s.canMove (.take i) = false) : s.taken? x i = none := by
  unfold taken?
  split
  · refine if_neg ?_
    rintro ⟨rfl, hmove⟩
    simp [h] at hmove
  · rfl

theorem taken?_of_none (hc : s.controllers[i]? = none) : s.taken? x i = none :=
  taken?_of_idle (by simp [canMove, hc])

theorem taken?_take {message : Message} {rest : List Message} (hc : s.controllers[i]? = some c)
    (hcan : c.canTake = true) (hi : c.inbox = message :: rest) :
    s.taken? (.move (.take i)) i = some message := by
  have hmove : s.canMove (.take i) = true := by simp [canMove, hc, hcan]
  rw [taken?, if_pos ⟨rfl, hmove⟩, inboxOf_eq hc, hi, List.head?_cons]

theorem intake_snoc (s : System) (happened : List Stimulus) (x : Stimulus) (i : Nat) :
    s.intake (happened ++ [x]) i = s.intake happened i ++ ((s.run happened).taken? x i).toList := by
  induction happened generalizing s with
  | nil => simp [intake, run]
  | cons y happened ih => simp [intake, ih, run]

/-- What a step does for a controller that goes on after it: messages of the container are put
before it, it takes one at most, and it may tell itself something. -/
structure Feeds (s : System) (x : Stimulus) (i : Nat) (sent : List Message) (c' : Controller) :
    Prop where
  live : ∀ {c : Controller}, s.controllers[i]? = some c → c.ended = false ∧ c'.plan = c.plan
  inbox : ∃ (rest : List Message) (own : List Event), s.inboxOf i ++ sent = (s.taken? x i).toList ++ rest ∧
    c'.inbox = rest ++ own.map .lifecycle ∧ ∀ e ∈ own, e.signal.Own

/-- A controller that takes nothing is told what is sent. -/
theorem Feeds.of_told {messages : List Message} (hc : s.controllers[i]? = some c)
    (hlive : (c.told messages).ended = false) (htaken : s.taken? x i = none) :
    s.Feeds x i messages (c.told messages) := by
  rw [c.told_ended] at hlive
  refine ⟨fun hc' => ?_, s.inboxOf i ++ messages, [], by simp [htaken], ?_, by simp⟩
  · obtain rfl := Option.some.inj (hc.symm.trans hc')
    exact ⟨hlive, c.told_plan messages⟩
  · rw [inboxOf_eq hc, Controller.told, if_neg (by simp [hlive])]
    simp

/-- A controller acts by itself. -/
theorem Feeds.of_acts (rest : List Message) (own : List Event)
    (hc : s.controllers[i]? = some c) (hlive : c.ended = false) (hplan : c'.plan = c.plan)
    (htaken : c.inbox = (s.taken? x i).toList ++ rest)
    (hinbox : c'.inbox = rest ++ own.map .lifecycle) (hown : ∀ e ∈ own, e.signal.Own) :
    s.Feeds x i [] c' := by
  refine ⟨fun hc' => ?_, rest, own, ?_, hinbox, hown⟩
  · obtain rfl := Option.some.inj (hc.symm.trans hc')
    exact ⟨hlive, hplan⟩
  · rw [inboxOf_eq hc, List.append_nil, htaken]

theorem Feeds.of_same (hc : s.controllers[i]? = some c) (hlive : c.ended = false)
    (htaken : s.taken? x i = none) : s.Feeds x i [] c := by
  have h : s.Feeds x i [] (c.told []) := .of_told hc (by rwa [c.told_nil]) htaken
  rwa [c.told_nil] at h

theorem feeds_take {task : Nat} (hc : s.controllers[i]? = some c) (hcan : c.canTake = true)
    (hlive : ((c.take i s.world).final task).ended = false) :
    s.Feeds (.move (.take i)) i [] ((c.take i s.world).final task) := by
  have hc_live := Controller.ended_of_canTake hcan
  have hplan := plan_take hcan i task s.world
  rw [Turn.final_ended] at hlive
  have hinbox : ((c.take i s.world).final task).inbox = (c.take i s.world).controller.inbox := by
    rw [Turn.final_inbox, if_neg (by simp [hlive])]
  rcases Controller.take_cases hcan i s.world with
    ⟨message, rest, hi, _, _, hs⟩ | ⟨e, rest, next, hi, _, _, ht⟩
  · have hskipped : ((c.take i s.world).final task).inbox = rest := by rw [hinbox, hs.controller]
    refine .of_acts rest [] hc hc_live hplan ?_ (by simp [hskipped]) (by simp)
    rw [taken?_take hc hcan hi, hi]
    rfl
  · obtain ⟨own, hown, hall⟩ := ht.own
    refine .of_acts rest own hc hc_live hplan ?_ (hinbox.trans hown) hall
    rw [taken?_take hc hcan hi, hi]
    rfl

theorem feeds_resume {task : Nat} {callback : Callback}
    {answer : Option (Awaited × Except Error Answer)} (hc : s.controllers[i]? = some c)
    (hwake : c.wakeUp? s.world = some (callback, answer))
    (hlive : ((c.resume i s.world).final task).ended = false) :
    s.Feeds (.move (.resume i)) i [] ((c.resume i s.world).final task) := by
  have ht := Controller.resume_resumed hwake i
  rw [Turn.final_ended] at hlive
  obtain ⟨own, hown, hall⟩ := ht.came.own
  have hinbox : ((c.resume i s.world).final task).inbox = c.inbox ++ own.map .lifecycle := by
    rw [Turn.final_inbox, if_neg (by simp [hlive]), hown]
  refine .of_acts c.inbox own hc (ht.alike.ended ▸ hlive) ?_ ?_ hinbox hall
  · rw [Turn.final_plan, ht.alike.plan]
  · rw [taken?_of_ne (by simp)]
    rfl

/-- What the container sends in a step is put before the controller it is for. -/
theorem feeds_receive (ht : Mirrors t s) {r : Request} {rest : List Request}
    (hi : s.container.inbox = r :: rest) (hc' : s.receive.controllers[i]? = some c')
    (hlive : c'.ended = false) :
    s.Feeds (.move .receive) i (Trial.messagesTo i (t.trace (r.steps s.container))) c' := by
  have htaken : s.taken? (.move .receive) i = none := taken?_of_ne (by simp)
  rw [(ht.receive hi).2] at hc'
  obtain ⟨c, hc, rfl⟩ := Option.map_eq_some_iff.mp hc'
  rw [List.getElem?_append] at hc
  split at hc
  · exact .of_told hc hlive htaken
  · next hlt =>
      have hnone : s.controllers[i]? = none := List.getElem?_eq_none (Nat.le_of_not_lt hlt)
      have hempty : c.inbox = [] := by
        have hlaunched := List.mem_of_getElem? hc
        unfold launches at hlaunched
        split at hlaunched
        · split at hlaunched
          · rw [List.mem_singleton.mp hlaunched]
            rfl
          · simp at hlaunched
        · simp at hlaunched
      rw [c.told_ended] at hlive
      refine ⟨fun hc => absurd (hnone.symm.trans hc) (by simp),
        Trial.messagesTo i (t.trace (r.steps s.container)), [], ?_, ?_, by simp⟩
      · rw [inboxOf_of_none hnone, htaken]
        rfl
      · rw [Controller.told, if_neg (by simp [hlive]), hempty]
        simp

/-- Where nobody takes a message, controllers may be woken or reminded. -/
theorem Calm.feeds (h : s.Calm s') (htaken : s.taken? x i = none)
    (hc' : s'.controllers[i]? = some c') (hlive : c'.ended = false) : s.Feeds x i [] c' := by
  obtain ⟨c, hc, hn⟩ := h.exists_controller hc'
  have hsame : c'.inbox = c.inbox ∧ c'.plan = c.plan ∧ c'.ended = c.ended := by
    rcases hn with rfl | rfl <;> exact ⟨rfl, rfl, rfl⟩
  refine .of_acts c.inbox [] hc (hsame.2.2 ▸ hlive) hsame.2.1 ?_ (by simp [hsame.1]) (by simp)
  rw [htaken]
  rfl

/-- A watcher tells a controller how its callback ended. -/
theorem Joins.feeds {task : Task} {outcome : Except Failure Unit} {id : Nat}
    (h : s.Joins task outcome id s') (hc' : s'.controllers[i]? = some c')
    (hlive : c'.ended = false) : s.Feeds (.move (.join id)) i [] c' := by
  rw [h.controllers] at hc'
  obtain ⟨c, hc, rfl⟩ := Option.map_eq_some_iff.mp hc'
  rw [c.told_ended] at hlive
  obtain ⟨own, hown, hall⟩ : ∃ own : List Event,
      Trial.messagesTo i [⟨task.owner, .lifecycle (task.event outcome)⟩] = own.map .lifecycle ∧
        ∀ e ∈ own, e.signal.Own := by
    by_cases hi : task.owner = i
    · exact ⟨[task.event outcome], by simp [Trial.messagesTo, hi],
        by simpa using (event_own task outcome).own⟩
    · exact ⟨[], by simp [Trial.messagesTo, hi], by simp⟩
  refine .of_acts c.inbox own hc hlive (c.told_plan _) ?_ ?_ hall
  · rw [taken?_of_ne (by simp)]
    rfl
  · rw [Controller.told, if_neg (by simp [hlive]), hown]

/-- A step in which no request is taken lets the container send nothing. -/
theorem Step.feeds (hs : Step s x s') (hx : x ≠ .move .receive)
    (hc' : s'.controllers[i]? = some c') (hlive : c'.ended = false) : s.Feeds x i [] c' := by
  cases hs with
  | calm hcalm hidle =>
      refine hcalm.feeds ?_ hc' hlive
      by_cases htake : x = .move (.take i)
      · exact taken?_of_idle (hidle i htake)
      · exact taken?_of_ne htake
  | opened origin hst hu =>
      exact .of_same (hu.controllers ▸ hc') hlive (taken?_of_ne (by simp))
  | asked origin o requests w ha =>
      rw [(sends_sendAll { s with world := w } requests).controllers] at hc'
      exact .of_same hc' hlive (taken?_of_ne (by simp))
  | received request rest hserving hi => exact absurd rfl hx
  | finished hst hq =>
      rw [(unmoved_finish s).controllers] at hc'
      exact .of_same hc' hlive (taken?_of_ne (by simp))
  | took id c hc hcan =>
      have ha := applies_applyTurn (t := c.take id s.world) (List.getElem?_eq_some_iff.mp hc).1
      rcases ha.cases_controller hc' with ⟨rfl, rfl⟩ | ⟨hi, hc'⟩
      · exact feeds_take hc hcan hlive
      · exact .of_same hc' hlive (taken?_of_ne (by simp [hi]))
  | resumed id c callback answer hc hwake =>
      have ha := applies_applyTurn (t := c.resume id s.world) (List.getElem?_eq_some_iff.mp hc).1
      rcases ha.cases_controller hc' with ⟨rfl, rfl⟩ | ⟨_, hc'⟩
      · exact feeds_resume hc hwake hlive
      · exact .of_same hc' hlive (taken?_of_ne (by simp))
  | joined id task outcome hj => exact hj.feeds hc' hlive

/-- Whoever obeys the order to stop takes no message, and the container sends none. -/
theorem Obeyed.feeds (hs : Obeyed s x s') (hc' : s'.controllers[i]? = some c')
    (hlive : c'.ended = false) : s.Feeds x i [] c' := by
  cases hs with
  | told => exact .of_same ((unmoved_cancel s).controllers ▸ hc') hlive (taken?_of_ne (by simp))
  | forced hforced hserving =>
      rw [shutDown_controllers] at hc'
      exact .of_same hc' hlive (taken?_of_ne (by simp))
  | ended id c hcancelled hc hgoes hfree =>
      rw [endController_controllers, List.getElem?_set] at hc'
      split at hc'
      · next hi =>
          -- whoever ends here does not go on
          split at hc'
          · rw [← Option.some.inj hc'] at hlive
            cases hlive
          · cases hc'
      · exact .of_same hc' hlive (taken?_of_ne (by simp))
  | calledOff id task hcancelled htask hw =>
      rw [callOffTask_controllers] at hc'
      exact .of_same hc' hlive (taken?_of_ne (by simp))

theorem feeds_apply (ht : Mirrors t s) (x : Stimulus)
    (hc' : (s.apply x).controllers[i]? = some c') (hlive : c'.ended = false) :
    s.Feeds x i (Trial.messagesTo i (t.trace (s.steps x))) c' := by
  by_cases hx : x = .move .receive
  · subst hx
    rcases apply_receive s with ⟨r, rest, hserving, hi, happly⟩ | ⟨hnone, happly⟩
    · rw [happly] at hc'
      rw [steps_receive hserving hi]
      exact feeds_receive ht hi hc' hlive
    · rw [happly] at hc'
      rw [hnone]
      exact .of_same hc' hlive (taken?_of_ne (by simp))
  · rw [steps_of_ne hx]
    cases happens_apply s x with
    | step h => exact h.feeds hx hc' hlive
    | obeyed h => exact h.feeds hc' hlive

/-! ## Changes of groups -/

/-- Whatever a controller was told of groups it has taken, in that order, or has before it. -/
theorem updates_run (happened : List Stimulus)
    (hlive : ∀ {c : Controller}, (initial.run happened).controllers[i]? = some c →
      c.ended = false) :
    updatesTo i (Trial.fresh.trace (initial.history happened)) =
      (initial.intake happened i).filterMap Message.update? ++
        ((initial.run happened).inboxOf i).filterMap Message.update? := by
  induction happened using List.reverseRecOn with
  | nil => rfl
  | append_singleton happened x ih =>
      have hm := mirrors_run happened
      rw [run_snoc] at hlive ⊢
      rw [history_snoc, Trial.trace_append_steps, Graph.updatesTo_append, intake_snoc,
        List.filterMap_append]
      cases hc' : ((initial.run happened).apply x).controllers[i]? with
      | some c' =>
          have hf := feeds_apply hm x hc' (hlive hc')
          obtain ⟨rest, own, hinbox, hleft, hown⟩ := hf.inbox
          have hquiet : (own.map Message.lifecycle).filterMap Message.update? = [] := by
            simp [Message.update?]
          have hupdates := congrArg (List.filterMap Message.update?) hinbox
          simp only [List.filterMap_append] at hupdates
          rw [ih fun hc => (hf.live hc).1, inboxOf_eq hc', hleft, List.filterMap_append, hquiet,
            List.append_nil, List.append_assoc, List.append_assoc]
          exact congrArg _ hupdates
      | none =>
          -- whoever is not there yet was not there before, and nobody sends anything to it
          have hm' := mirrors_run (happened ++ [x])
          rw [history_snoc, run_snoc] at hm'
          have hlen := Trial.length_after_le (initial.history happened)
            ((initial.run happened).steps x)
          have hafter := Nat.le_trans (Nat.le_of_eq hm'.inboxes) (List.getElem?_eq_none_iff.mp hc')
          have hnone : (initial.run happened).controllers[i]? = none := by
            rw [List.getElem?_eq_none_iff, ← hm.inboxes]
            exact Nat.le_trans hlen hafter
          have hbefore := ih (by simp [hnone])
          rw [inboxOf_of_none hnone, List.filterMap_nil, List.append_nil] at hbefore
          have htold := Trial.told_eq_nil hafter
          rw [Trial.told, Trial.trace_append_steps, Graph.updatesTo_append] at htold
          rw [← hbefore, taken?_of_none hnone, inboxOf_of_none hc']
          simpa using (List.append_eq_nil_iff.mp htold).2

/-! ## What controllers were registered with -/

/-- Whoever is there stays there, with the plan it has, and whoever is removed stays removed. -/
theorem kept_apply (hc : s.controllers[i]? = some c) (x : Stimulus) :
    ∃ c', (s.apply x).controllers[i]? = some c' ∧ c'.plan = c.plan ∧
      (c.state = .removed → c'.state = .removed) := by
  by_cases hx : x = .move .receive
  · subst hx
    rcases apply_receive s with ⟨r, rest, hserving, hi, happly⟩ | ⟨hnone, happly⟩
    · rw [happly, ((mirrors_trial s).receive hi).2,
        List.getElem?_append_left (List.getElem?_eq_some_iff.mp hc).1, hc]
      exact ⟨_, rfl, c.told_plan _, fun h => (c.told_state _).trans h⟩
    · rw [happly]
      exact ⟨c, hc, rfl, id⟩
  · have hs := happens_apply s x
    have hlt := (List.getElem?_eq_some_iff.mp hc).1
    rw [← (hs.still hx).2] at hlt
    have hc' := List.getElem?_eq_getElem hlt
    refine ⟨_, hc', ?_⟩
    generalize (s.apply x).controllers[i] = c' at hc'
    cases hs.befalls hc' with
    | told messages hold h =>
        obtain rfl := Option.some.inj (hc.symm.trans hold)
        exact ⟨h ▸ c.told_plan messages, fun hr => h ▸ (c.told_state messages).trans hr⟩
    | alarmed hold h =>
        obtain rfl := Option.some.inj (hc.symm.trans hold)
        exact ⟨h ▸ rfl, fun hr => h ▸ hr⟩
    | took _ hold hcan h =>
        obtain rfl := Option.some.inj (hc.symm.trans hold)
        exact ⟨h ▸ plan_take hcan i _ _, (h ▸ advances_take hcan i _ _).of_removed⟩
    | resumed _ hold hwake h =>
        obtain rfl := Option.some.inj (hc.symm.trans hold)
        have halike := (Controller.resume_resumed hwake i).alike
        refine ⟨by rw [h, Turn.final_plan, halike.plan], fun hr => ?_⟩
        rw [h, Turn.final_state, halike.state, hr]
    | launched _ hreceive => exact absurd hreceive hx
    | ended hold _ _ h =>
        obtain rfl := Option.some.inj (hc.symm.trans hold)
        exact ⟨h ▸ rfl, fun hr => h ▸ hr⟩

/-- Nobody takes anything in before being there. -/
theorem intake_eq_nil (s : System) {happened : List Stimulus}
    (hnone : (s.run happened).controllers[i]? = none) : s.intake happened i = [] := by
  induction happened using List.reverseRecOn with
  | nil => rfl
  | append_singleton happened x ih =>
      rw [run_snoc] at hnone
      have hbefore : (s.run happened).controllers[i]? = none := by
        by_contra hsome
        obtain ⟨c, hc⟩ := Option.ne_none_iff_exists'.mp hsome
        obtain ⟨c', hc', -⟩ := kept_apply hc x
        simp [hnone] at hc'
      rw [intake_snoc, ih hbefore, taken?_of_none hbefore]
      rfl

/-- The graph has every service with what its plan says. -/
def Enrolled (s : System) : Prop :=
  ∀ ⦃m : Name⦄ ⦃n : Node⦄, s.container.graph.nodes[m]? = some n →
    ∃ c, s.controllers[n.inbox]? = some c ∧ n.dependencies = c.plan.dependencies ∧
      n.group = c.plan.group ∧ n.references = Names.ofList c.plan.rosters.keys

theorem plan_of_register {r : Request} {container : Container} {m : Name} {ds refs : Names}
    {group : Option Name} (h : .register m ds group refs ∈ r.steps container) :
    ∃ plan ticket, r = .install plan ticket ∧ ds = plan.dependencies ∧ group = plan.group ∧
      refs = Names.ofList plan.rosters.keys := by
  cases r with
  | install plan ticket =>
      rw [Request.steps] at h
      split at h
      · obtain ⟨-, rfl, rfl, rfl⟩ := TrialStep.register.inj (List.mem_singleton.mp h)
        exact ⟨plan, ticket, rfl, rfl, rfl, rfl⟩
      · cases h
  | close ticket =>
      rw [Request.steps] at h
      split at h <;> simp at h
  | remove | report | has | state | text => simp [Request.steps] at h

theorem Enrolled.receive (h : s.Enrolled) (hsound : s.trial.Sound) {r : Request}
    {rest : List Request} (hi : s.container.inbox = r :: rest) : s.receive.Enrolled := by
  intro m n' hn'
  obtain ⟨hm, hh⟩ := (mirrors_trial s).receive hi
  rw [← hm.graph] at hn'
  rcases hsound.entry_foldl hn' with ⟨n, hn, ha⟩ | ⟨hl, hle⟩
  · obtain ⟨c, hc, hd, hg, hr⟩ := h hn
    rw [hh, ha.inbox, List.getElem?_append_left (List.getElem?_eq_some_iff.mp hc).1, hc]
    refine ⟨_, rfl, ?_, ?_, ?_⟩ <;> rw [c.told_plan]
    · rw [ha.dependencies, hd]
    · rw [ha.group, hg]
    · rw [ha.references, hr]
  · -- it is registered now, with the controller that is launched for it
    have hlt : n'.inbox < s.receive.controllers.length :=
      hm.inboxes ▸ (hsound.foldl _).known hn'
    rw [(mirrors_trial s).inboxes] at hle
    obtain ⟨c, hc, hc'⟩ :=
      Option.map_eq_some_iff.mp ((hh n'.inbox).symm.trans (List.getElem?_eq_getElem hlt))
    rw [List.getElem?_append_right hle] at hc
    have hlaunched := List.mem_of_getElem? hc
    obtain ⟨plan, ticket, rfl, hd, hg, hr⟩ := plan_of_register hl
    rw [launches] at hlaunched
    split at hlaunched
    · refine ⟨_, List.getElem?_eq_getElem hlt, ?_⟩
      rw [← hc', c.told_plan, List.mem_singleton.mp hlaunched]
      exact ⟨hd, hg, hr⟩
    · cases hlaunched

theorem enrolled_run (happened : List Stimulus) : (initial.run happened).Enrolled := by
  induction happened using List.reverseRecOn with
  | nil =>
      intro m n hn
      simp [run, initial, Container.fresh, Graph.empty] at hn
  | append_singleton happened x ih =>
      rw [run_snoc]
      by_cases hx : x = .move .receive
      · subst hx
        rcases apply_receive (initial.run happened) with ⟨r, rest, _, hi, happly⟩ | ⟨_, happly⟩
        · rw [happly]
          exact ih.receive (wellFormed_run happened).sound hi
        · rw [happly]
          exact ih
      · intro m n hn
        rw [((happens_apply _ x).still hx).1] at hn
        obtain ⟨c, hc, hd, hg, hr⟩ := ih hn
        obtain ⟨c', hc', hplan, -⟩ := kept_apply hc x
        exact ⟨c', hc', hplan ▸ hd, hplan ▸ hg, hplan ▸ hr⟩

/-! ## Deliveries of dependencies -/

/-- Whoever is given dependencies by a request is given those it was registered with. -/
theorem gift_of_steps (ht : t.Sound) {r : Request} {container : Container}
    {values : List (Name × Value)} (h : gift i values ∈ t.trace (r.steps container)) :
    ∃ (m : Name) (n' : Node),
      ((r.steps container).foldl Trial.next t).graph.nodes[m]? = some n' ∧ n'.inbox = i ∧
        values.map Prod.fst = n'.dependencies.toList := by
  have hone {step : TrialStep} (h : gift i values ∈ t.trace [step]) : ∃ (m : Name) (n' : Node),
      (t.next step).graph.nodes[m]? = some n' ∧ n'.inbox = i ∧
        values.map Prod.fst = n'.dependencies.toList := by
    rw [Trial.trace, Trial.trace, List.append_nil] at h
    exact ht.gift_next h
  cases r with
  | install plan ticket =>
      rw [Request.steps] at h ⊢
      split at h
      · next hst =>
          rw [if_pos hst]
          exact hone h
      · cases h
  | close ticket =>
      rw [Request.steps] at h
      split at h
      · exact absurd h (ht.not_gift_removes _)
      · cases h
  | remove name ticket => exact hone h
  | report name reached value => exact hone h
  | has | state | text => cases h

/-- Whoever has its dependencies before it has all of them, each once, in the order of their names. -/
theorem covered_run (happened : List Stimulus) {values : List (Name × Value)}
    (hc : (initial.run happened).controllers[i]? = some c) (hlive : c.ended = false)
    (hoffer : .lifecycle (.dependenciesAvailable values) ∈ c.inbox) :
    values.map Prod.fst = c.plan.dependencies.toList := by
  induction happened using List.reverseRecOn generalizing c with
  | nil => simp [run, initial] at hc
  | append_singleton happened x ih =>
      have hknown := enrolled_run (happened ++ [x])
      rw [run_snoc] at hc hknown
      have hmirrors := mirrors_trial (initial.run happened)
      have hf := feeds_apply hmirrors x hc hlive
      obtain ⟨rest, own, hinbox, hleft, hown⟩ := hf.inbox
      rw [hleft, List.mem_append] at hoffer
      have hrest := hoffer.resolve_right fun h => by
        obtain ⟨e, he, heq⟩ := List.mem_map.mp h
        have := hown e he
        rw [Message.lifecycle.inj heq] at this
        simp [Event.signal, Signal.Own] at this
      have hbefore := List.mem_append_right ((initial.run happened).taken? x i).toList hrest
      rw [← hinbox, List.mem_append] at hbefore
      rcases hbefore with hold | hsent
      · cases hc₀ : (initial.run happened).controllers[i]? with
        | none => simp [inboxOf_of_none hc₀] at hold
        | some c₀ =>
            obtain ⟨hlive₀, hplan⟩ := hf.live hc₀
            rw [inboxOf_eq hc₀] at hold
            exact hplan ▸ ih hc₀ hlive₀ hold
      · have hgift := Graph.mem_messagesTo.mp hsent
        by_cases hx : x = .move .receive
        · subst hx
          rcases apply_receive (initial.run happened) with
            ⟨r, rest', hserving, hi, happly⟩ | ⟨hnone, _⟩
          · rw [steps_receive hserving hi] at hgift
            obtain ⟨m, n', hn', hinbox', hvalues⟩ :=
              gift_of_steps (wellFormed_run happened).sound hgift
            rw [(hmirrors.receive hi).1.graph, ← happly] at hn'
            obtain ⟨c', hc', hd, _⟩ := hknown hn'
            rw [hinbox'] at hc'
            obtain rfl := Option.some.inj (hc.symm.trans hc')
            exact hd ▸ hvalues
          · simp [hnone, Trial.trace] at hgift
        · simp [steps_of_ne hx, Trial.trace] at hgift

end System

end ServiceHost
