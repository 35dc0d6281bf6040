import ServiceHost.Proofs.Graph.Order
import ServiceHost.Proofs.Graph.Passage
import ServiceHost.Proofs.System.Frames

/-! # A service and its controller

The node of an installed service lags behind its controller by the reports in flight, and the
controller behind the node by the signals in its inbox. What each of them will find is settled
nevertheless, which is stated here and kept by every single step. -/

namespace ServiceHost

/-- The reports in flight under a name, oldest first. -/
def reportsOf (m : Name) (requests : List Request) : List (State × Option Value) :=
  requests.filterMap fun
    | .report name state value => if name = m then some (state, value) else none
    | _ => none

/-- The states a node shows and will show, as reported. -/
def Node.outlook (n : Node) (r : List (State × Option Value)) : List State :=
  n.state :: r.map Prod.fst

open ServiceHost.Graph (WarnedFirst Warned Carried Lawful)

/-- A controller is on its way out, or will be without another signal from the container. -/
def Controller.Doomed (c : Controller) : Prop :=
  c.state.Leaving ∨ c.state = .starting true ∨ Warned c.signals

/-- The node of a service, its controller and the reports in flight agree. -/
structure Linked (m : Name) (n : Node) (c : Controller) (r : List (State × Option Value)) :
    Prop where
  name : c.plan.name = m
  dependencies : c.plan.dependencies = n.dependencies
  installed : n.state ≠ .removed
  ascending : (n.outlook r).Pairwise fun a b => a.phase < b.phase
  upTo : ∀ s ∈ n.outlook r, s.phase ≤ c.state.phase
  suspended : c.callback.isSome = true → ∀ s ∈ n.outlook r, s.phase < c.state.phase
  reached : c.callback = none → ∃ s ∈ n.outlook r, s.phase = c.state.phase
  exposes : ∀ v, (State.started, v) ∈ r → v = some c.plan.value
  value : ∀ v, n.value = some v → v = c.plan.value
  /-- Nobody is left behind: it goes no further than draining while a dependent is awaited. -/
  inUse : ¬n.Released → ∀ s ∈ n.outlook r, s.InUse → c.state.InUse
  resolved : ∀ s ∈ c.state :: n.outlook r, 0 < s.phase → s ≠ .removed → n.resolved = true
  available : .dependenciesAvailable ∈ c.signals → n.resolved = true
  given : n.resolved = true → c.state = .waiting → .dependenciesAvailable ∈ c.signals
  stopped : .dependentsStopped ∈ c.signals → n.Released
  /-- The signal that its dependents are gone finds it draining. -/
  draining : n.Released → c.state = .draining → .dependentsStopped ∈ c.signals
  warned : n.Released → c.state.phase ≤ 2 → c.state ≠ .starting true → WarnedFirst c.signals

variable {m : Name} {n n' : Node} {c c' : Controller} {r : List (State × Option Value)}

theorem Node.mem_outlook {s : State} :
    s ∈ n.outlook r ↔ s = n.state ∨ s ∈ r.map Prod.fst := by
  simp [outlook]

theorem Graph.WarnedFirst.append {l : List Signal} (h : WarnedFirst l) (l' : List Signal) :
    WarnedFirst (l ++ l') := by
  obtain ⟨l₁, l₂, rfl, hw, hs⟩ := h
  exact ⟨l₁, l₂ ++ l', by rw [List.append_assoc], hw, List.mem_append_left _ hs⟩

/-- A signal that warns no one can be taken off. -/
theorem Graph.WarnedFirst.tail {x : Signal} {l : List Signal} (h : WarnedFirst (x :: l))
    (hx : ¬x.Stops) : WarnedFirst l := by
  obtain ⟨l₁, l₂, he, hw, hs⟩ := h
  cases l₁ with
  | nil => exact absurd hw Graph.not_warned_nil
  | cons y l₁ =>
      obtain ⟨rfl, rfl⟩ := List.cons.inj he
      exact ⟨l₁, l₂, rfl, (Graph.warned_cons.mp hw).resolve_left hx, hs⟩

theorem Graph.WarnedFirst.mem_tail {x : Signal} {l : List Signal} (h : WarnedFirst (x :: l)) :
    .dependentsStopped ∈ l := by
  obtain ⟨l₁, l₂, he, hw, hs⟩ := h
  cases l₁ with
  | nil => exact absurd hw Graph.not_warned_nil
  | cons y l₁ =>
      obtain ⟨rfl, rfl⟩ := List.cons.inj he
      exact List.mem_append_right _ hs

theorem Graph.WarnedFirst.warned {l : List Signal} (h : WarnedFirst l) : Warned l := by
  obtain ⟨l₁, l₂, rfl, hw, _⟩ := h
  exact Graph.warned_append.mpr (.inl hw)

/-! ## What a link tells -/

/-- The oldest report in flight is one the controller may make. -/
theorem Linked.lawful {state : State} {value : Option Value}
    (h : Linked m n c ((state, value) :: r)) : Lawful n state value := by
  have hmem : state ∈ n.outlook ((state, value) :: r) := Node.mem_outlook.mpr (.inr (by simp))
  have hlater : n.state.phase < state.phase :=
    List.rel_of_pairwise_cons h.ascending (by simp)
  refine ⟨hlater, ?_, ?_, ?_⟩
  · rintro rfl
    rw [h.exposes value (by simp)]
    rfl
  · intro hne
    exact h.resolved state (List.mem_cons_of_mem _ hmem) (by omega) hne
  · intro huse hrel
    have hc := h.inUse hrel n.state (Node.mem_outlook.mpr (.inl rfl)) huse
    have hle := h.upTo state hmem
    have htwo := huse.phase
    have hthree : c.state.phase ≤ 3 := by rcases hc with hc | hc <;> simp [hc, State.phase]
    cases state <;> simp_all [State.phase] <;> omega

/-- Nothing is reported after the removal. -/
theorem Linked.eq_nil_of_removed {value : Option Value}
    (h : Linked m n c ((.removed, value) :: r)) : r = [] := by
  rw [List.eq_nil_iff_forall_not_mem]
  intro x hx
  have hafter := h.ascending
  simp only [Node.outlook, List.map_cons, List.pairwise_cons, List.mem_map] at hafter
  have hlt : 5 < x.1.phase := hafter.2.1 _ ⟨x, hx, rfl⟩
  have hle := x.1.phase_le_five
  omega

/-! ## Steps of the controller -/

/-- Only these fields of a controller count. -/
theorem Linked.congr (h : Linked m n c r) (hp : c'.plan = c.plan) (hs : c'.state = c.state)
    (hc : c'.callback.isSome = c.callback.isSome) (hx : c'.signals = c.signals) :
    Linked m n c' r := by
  have hnone : c'.callback = none ↔ c.callback = none := by
    rw [← Option.not_isSome_iff_eq_none, hc, Option.not_isSome_iff_eq_none]
  refine ⟨?_, ?_, h.installed, h.ascending, ?_, ?_, ?_, ?_, ?_, ?_, ?_, ?_, ?_, ?_, ?_, ?_⟩ <;>
    simp only [hp, hs, hc, hx, hnone]
  · exact h.name
  · exact h.dependencies
  · exact h.upTo
  · exact h.suspended
  · exact h.reached
  · exact h.exposes
  · exact h.value
  · exact h.inUse
  · exact h.resolved
  · exact h.available
  · exact h.given
  · exact h.stopped
  · exact h.draining
  · exact h.warned

theorem Controller.Doomed.congr (h : c.Doomed) (hs : c'.state = c.state)
    (hx : c'.signals = c.signals) : c'.Doomed := by
  unfold Doomed
  rw [hs, hx]
  exact h

/-- A signal the controller heeds in its state. -/
theorem heeds_stop {x : Signal} (hx : x.Stops) (hs : c.state.phase ≤ 2) : c.Heeds x := by
  unfold Controller.Heeds
  cases h : c.state with
  | waiting => exact ⟨_, _, .abort hx⟩
  | starting asked =>
      cases hi : c.interruptible with
      | true => exact ⟨_, _, .cut asked (.inl hx) rfl⟩
      | false => exact ⟨_, _, .note asked (.inl hx) rfl⟩
  | started => exact ⟨_, _, .drain hx⟩
  | draining | stopping | removed => simp [h, State.phase] at hs

theorem heeds_available (hs : c.state = .waiting) : c.Heeds .dependenciesAvailable := by
  unfold Controller.Heeds
  rw [hs]
  exact ⟨_, _, .start⟩

theorem heeds_stopped (hs : c.state = .draining) : c.Heeds .dependentsStopped := by
  unfold Controller.Heeds
  rw [hs]
  exact ⟨_, _, .release⟩

theorem heeds_removed (hs : c.state = .removed) : c.Heeds .removed := by
  unfold Controller.Heeds
  rw [hs]
  exact ⟨_, _, .last⟩

theorem Controller.signals_cons {message : Message} {rest : List Message}
    (hi : c.inbox = message :: rest) : c.signals = message.signal?.toList ++
      Controller.signals { c with inbox := rest } := by
  unfold Controller.signals
  rw [hi]
  cases hm : message.signal? <;> simp [hm]

/-- Taking a message that means nothing loses no signal that means something. -/
theorem Controller.Heeds.mem_tail {message : Message} {rest : List Message} {x : Signal}
    (h : c.Heeds x) (hi : c.inbox = message :: rest)
    (hno : ∀ x, message.signal? = some x → ¬c.Heeds x) (hx : x ∈ c.signals) :
    x ∈ Controller.signals { c with inbox := rest } := by
  rw [c.signals_cons hi, List.mem_append, Option.mem_toList] at hx
  rcases hx with hx | hx
  · exact absurd h (hno x hx)
  · exact hx

/-- A message that means nothing is taken. -/
theorem Linked.skip (h : Linked m n c r) {message : Message} {rest : List Message}
    (hi : c.inbox = message :: rest) (hno : ∀ x, message.signal? = some x → ¬c.Heeds x) :
    Linked m n { c with inbox := rest } r := by
  have hsig := c.signals_cons hi
  have hmem : ∀ x, x ∈ Controller.signals { c with inbox := rest } → x ∈ c.signals := by
    intro x hx
    rw [hsig]
    exact List.mem_append_right _ hx
  refine ⟨h.name, h.dependencies, h.installed, h.ascending, h.upTo, h.suspended, h.reached,
    h.exposes, h.value, h.inUse, h.resolved, fun hx => h.available (hmem _ hx), ?_,
    fun hx => h.stopped (hmem _ hx), ?_, ?_⟩
  · exact fun hr hs => (heeds_available (c := c) hs).mem_tail hi hno (h.given hr hs)
  · exact fun hrel hs => (heeds_stopped (c := c) hs).mem_tail hi hno (h.draining hrel hs)
  · intro hrel hphase hne
    have hw := h.warned hrel hphase hne
    rw [hsig] at hw
    cases hm : message.signal? with
    | none => simpa [hm] using hw
    | some x =>
        rw [hm] at hw
        exact hw.tail fun hx => hno x hm (heeds_stop hx hphase)

theorem Controller.Doomed.skip (h : c.Doomed) {message : Message} {rest : List Message}
    (hi : c.inbox = message :: rest) (hno : ∀ x, message.signal? = some x → ¬c.Heeds x) :
    Controller.Doomed { c with inbox := rest } := by
  rcases h with h | h | ⟨x, hx, hstop⟩
  · exact .inl h
  · exact .inr (.inl h)
  · by_cases hphase : c.state.phase ≤ 2
    · exact .inr (.inr ⟨x, (heeds_stop hstop hphase).mem_tail hi hno hx, hstop⟩)
    · exact .inl (Nat.lt_of_not_le hphase)

/-- A signal a controller sends to itself. -/
def Signal.Own (x : Signal) : Prop := x = .started ∨ x = .startFailed ∨ x = .stopped ∨ x = .removed

instance (x : Signal) : Decidable x.Own := inferInstanceAs (Decidable (_ ∨ _ ∨ _ ∨ _))

theorem Phase.Outcome.own {phase : Phase} {x : Signal} (h : phase.Outcome x) : x.Own := by
  cases phase with
  | start => rcases h with rfl | rfl <;> decide
  | stop => cases h; decide

/-- A callback adds to the inbox at most what its controller tells itself. -/
theorem Came.own {phase : Phase} {inbox : List Message} {deferred : Option (Phase × Completion)}
    (h : Came phase inbox c deferred) :
    ∃ own : List Event, c.inbox = inbox ++ own.map .lifecycle ∧ ∀ e ∈ own, e.signal.Own := by
  cases h with
  | suspended callback _ _ hi | deferred work _ hi => exact ⟨[], by simp [hi], by simp⟩
  | returned e he _ hi => exact ⟨[e], by simp [hi], by simpa using he.own⟩

theorem Controller.signals_of_own {inbox : List Message} {own : List Event}
    (hi : c.inbox = inbox ++ own.map .lifecycle) (hown : ∀ e ∈ own, e.signal.Own) :
    ∃ own : List Signal, c.signals = inbox.filterMap Message.signal? ++ own ∧ ∀ x ∈ own, x.Own := by
  refine ⟨own.map Event.signal, ?_, ?_⟩
  · rw [Controller.signals, hi, List.filterMap_append, List.filterMap_map]
    exact congrArg _ (congrFun (List.filterMap_eq_map (f := Event.signal)) _)
  · intro x hx
    obtain ⟨e, he, rfl⟩ := List.mem_map.mp hx
    exact hown e he

theorem Came.signals {phase : Phase} {inbox : List Message} {deferred : Option (Phase × Completion)}
    (h : Came phase inbox c deferred) :
    ∃ own : List Signal, c.signals = inbox.filterMap Message.signal? ++ own ∧ ∀ x ∈ own, x.Own := by
  obtain ⟨own, hi, hown⟩ := h.own
  exact Controller.signals_of_own hi hown

/-! ## A controller that gets on -/

theorem reportsOf_append (m : Name) (l l' : List Request) :
    reportsOf m (l ++ l') = reportsOf m l ++ reportsOf m l' :=
  List.filterMap_append

theorem Node.outlook_append (n : Node) (r r' : List (State × Option Value)) :
    n.outlook (r ++ r') = n.outlook r ++ r'.map Prod.fst := by
  simp [outlook]

/-- What a controller that got on adds to the reports in flight: nothing, as long as its callback is
suspended or if its phase is known, or the state it got to. -/
inductive Reported (n : Node) (r : List (State × Option Value)) (c : Controller) :
    List (State × Option Value) → Prop
  | nothing (h : c.callback = none → ∃ s ∈ n.outlook r, s.phase = c.state.phase) :
      Reported n r c []
  | state (value : Option Value) (hc : c.callback = none)
      (hlater : ∀ s ∈ n.outlook r, s.phase < c.state.phase)
      (hvalue : c.state = .started → value = some c.plan.value) :
      Reported n r c [(c.state, value)]

namespace Reported

variable {r' : List (State × Option Value)} (h : Reported n r c r')
include h

theorem mem_outlook {s : State} (hs : s ∈ n.outlook (r ++ r')) :
    s ∈ n.outlook r ∨ (s = c.state ∧ c.callback = none) := by
  rw [Node.outlook_append, List.mem_append] at hs
  refine hs.imp_right fun hs => ?_
  cases h with
  | nothing => simp at hs
  | state value hc => exact ⟨by simpa using hs, hc⟩

theorem ascending (hr : (n.outlook r).Pairwise fun a b => a.phase < b.phase) :
    (n.outlook (r ++ r')).Pairwise fun a b => a.phase < b.phase := by
  cases h with
  | nothing => simpa using hr
  | state value _ hlater =>
      rw [Node.outlook_append, List.pairwise_append]
      exact ⟨hr, by simp, by simpa using hlater⟩

theorem reached (hc : c.callback = none) :
    ∃ s ∈ n.outlook (r ++ r'), s.phase = c.state.phase := by
  cases h with
  | nothing h => simpa using h hc
  | state value =>
      refine ⟨c.state, ?_, rfl⟩
      rw [Node.outlook_append]
      simp

theorem exposes (hr : ∀ v, (State.started, v) ∈ r → v = some c.plan.value) {v : Option Value}
    (hv : (State.started, v) ∈ r ++ r') : v = some c.plan.value := by
  rcases List.mem_append.mp hv with hv | hv
  · exact hr v hv
  · cases h with
    | nothing => simp at hv
    | state value _ _ hvalue =>
        obtain ⟨hs, rfl⟩ := Prod.mk.inj (List.mem_singleton.mp hv)
        exact hvalue hs.symm

end Reported

/-- A controller gets on: it is no longer in use only where it may be, hears of nothing but itself
that was not in its inbox before, and what is still to come is in its inbox. -/
theorem Linked.advance (h : Linked m n c r) {r' : List (State × Option Value)}
    (hr : Reported n r c' r') (hp : c'.plan = c.plan) (hle : c.state.phase ≤ c'.state.phase)
    (hsuspended : c'.callback.isSome = true → ∀ s ∈ n.outlook r, s.phase < c'.state.phase)
    (huse : ¬n.Released → c.state.InUse → c'.state.InUse)
    (hres : 0 < c'.state.phase → c'.state ≠ .removed → n.resolved = true)
    (hback : ∀ x ∈ c'.signals, ¬x.Own → x ∈ c.signals)
    (hgiven : n.resolved = true → c'.state = .waiting → .dependenciesAvailable ∈ c'.signals)
    (hdraining : n.Released → c'.state = .draining → .dependentsStopped ∈ c'.signals)
    (hwarned : n.Released → c'.state.phase ≤ 2 → c'.state ≠ .starting true →
      WarnedFirst c'.signals) : Linked m n c' (r ++ r') where
  name := hp ▸ h.name
  dependencies := hp ▸ h.dependencies
  installed := h.installed
  ascending := hr.ascending h.ascending
  upTo := by
    intro s hs
    rcases hr.mem_outlook hs with hs | ⟨rfl, _⟩
    · exact Nat.le_trans (h.upTo s hs) hle
    · exact Nat.le_refl _
  suspended := by
    intro hsome s hs
    rcases hr.mem_outlook hs with hs | ⟨_, hnone⟩
    · exact hsuspended hsome s hs
    · simp [hnone] at hsome
  reached := hr.reached
  exposes := fun _ => hr.exposes (hp ▸ h.exposes)
  value := hp ▸ h.value
  inUse := by
    intro hrel s hs hsuse
    rcases hr.mem_outlook hs with hs | ⟨rfl, _⟩
    · exact huse hrel (h.inUse hrel s hs hsuse)
    · exact hsuse
  resolved := by
    intro s hs hphase hne
    rcases List.mem_cons.mp hs with rfl | hs
    · exact hres hphase hne
    · rcases hr.mem_outlook hs with hs | ⟨rfl, _⟩
      · exact h.resolved s (List.mem_cons_of_mem _ hs) hphase hne
      · exact hres hphase hne
  available := fun hx => h.available (hback _ hx (by decide))
  given := hgiven
  stopped := fun hx => h.stopped (hback _ hx (by decide))
  draining := hdraining
  warned := hwarned

section Move

variable {w : World} {e : Event} {rest : List Message} {next : State} {effects : List Effect}
  {t : Turn}

theorem Turn.Moved.own (h : t.Moved w c rest next effects) :
    ∃ own : List Event, t.controller.inbox = rest ++ own.map .lifecycle ∧
      ∀ e ∈ own, e.signal.Own := by
  have hleft := h.left
  split at hleft
  · exact hleft.own
  · refine ⟨effects.filterMap Effect.emit?, hleft.1, fun e he => ?_⟩
    obtain ⟨effect, _, he⟩ := List.mem_filterMap.mp he
    cases effect <;> cases he <;> decide

/-- A move takes one signal and leaves the others, with what the controller sent itself. -/
theorem Turn.Moved.signals (h : t.Moved w c rest next effects) :
    ∃ own : List Signal, t.controller.signals = rest.filterMap Message.signal? ++ own ∧
      ∀ x ∈ own, x.Own := by
  obtain ⟨own, hi, hown⟩ := h.own
  exact Controller.signals_of_own hi hown

/-- A callback is suspended only after a move that leads on. -/
theorem Turn.Moved.phase_lt (h : t.Moved w c rest next effects)
    (hm : Moves c.interruptible c.state e.signal next effects)
    (hs : t.controller.callback.isSome = true) : c.state.phase < next.phase := by
  rcases hm.phase_lt_or with hlt | ⟨_, rfl | rfl⟩
  · exact hlt
  · simp [h.left.2.1] at hs
  · have hleft := h.left
    simp only [List.findSome?_cons, Effect.call?, List.findSome?_nil] at hleft
    simp [hleft.2.1] at hs

/-- What a move adds to the reports in flight. -/
theorem Turn.Moved.reports (h : t.Moved w c rest next effects) (hname : c.plan.name = m) :
    reportsOf m t.reported.toList =
      if next.phase = c.state.phase ∨ t.controller.callback.isSome = true then []
      else [(next, if .completeStart ∈ effects then some c.plan.value else none)] := by
  rw [h.reported]
  split
  · rfl
  · simp [reportsOf, hname]

theorem Turn.Moved.added (h : Linked m n c r) (hc : c.callback = none)
    (hm : Moves c.interruptible c.state e.signal next effects)
    (ht : t.Moved w c rest next effects) :
    Reported n r t.controller (reportsOf m t.reported.toList) := by
  have hstate := ht.state
  rw [ht.reports h.name]
  split
  · next hno =>
      refine .nothing fun hnone => ?_
      have hphase : next.phase = c.state.phase := by simpa [hnone] using hno
      rw [hstate, hphase]
      exact h.reached hc
  · next hno =>
      have hle := hm.phase_le
      have hne : next.phase ≠ c.state.phase := fun hp => hno (.inl hp)
      have hnone : t.controller.callback = none := by simpa using fun hp => hno (.inr hp)
      rw [← hstate]
      refine .state _ hnone (fun s hs => ?_) fun hstarted => ?_
      · have := h.upTo s hs
        rw [hstate]
        omega
      · rw [← hstate, hstarted] at hm
        rw [hm.of_started, ht.plan]
        simp

/-- A controller that makes a move reports it, at once or later. -/
theorem Linked.move (h : Linked m n c r) (hi : c.inbox = .lifecycle e :: rest)
    (hc : c.callback = none) (hm : Moves c.interruptible c.state e.signal next effects)
    (ht : t.Moved w c rest next effects) :
    Linked m n t.controller (r ++ reportsOf m t.reported.toList) := by
  obtain ⟨own, hsignals, hown⟩ := ht.signals
  have htaken : c.signals = e.signal :: rest.filterMap Message.signal? := by
    rw [Controller.signals, hi]
    simp [Message.signal?]
  have hheard : e.signal ∈ c.signals := htaken ▸ List.mem_cons_self
  have hwarned : n.Released → c.state.phase ≤ 2 → c.state ≠ .starting true →
      WarnedFirst (e.signal :: rest.filterMap Message.signal?) := by
    intro hrel hphase hne
    exact htaken ▸ h.warned hrel hphase hne
  have hstate := ht.state
  refine h.advance (ht.added h hc hm) ht.plan (hstate ▸ hm.phase_le) ?_ ?_ ?_ ?_ ?_ ?_ ?_
  · intro hsome s hs
    rw [hstate]
    exact Nat.lt_of_le_of_lt (h.upTo s hs) (ht.phase_lt hm hsome)
  · intro hrel huse
    rw [hstate]
    rcases huse with hc | hc
    · rw [hc] at hm
      exact .inr hm.started
    · rw [hc] at hm
      exact absurd (h.stopped (hm.draining ▸ hheard)) hrel
  · intro _ hne
    rw [hstate] at hne
    by_cases hw : c.state = .waiting
    · rw [hw] at hm
      exact h.available (hm.waiting hne ▸ hheard)
    · refine h.resolved c.state List.mem_cons_self (Nat.pos_of_ne_zero ?_) ?_
      · exact fun hp => hw (State.phase_eq_zero.mp hp)
      · rintro hr
        rw [hr] at hm
        exact hne hm.removed
  · intro x hx hno
    rw [hsignals, List.mem_append] at hx
    rw [htaken]
    exact List.mem_cons_of_mem _ (hx.resolve_right fun hx => hno (hown x hx))
  · exact fun _ hw => absurd (hstate.symm.trans hw) hm.ne_waiting
  · intro hrel hd
    rw [← hstate, hd] at hm
    obtain ⟨hs, _⟩ := hm.of_draining
    rw [hsignals]
    refine List.mem_append_left _ (hwarned hrel ?_ ?_).mem_tail <;> simp [hs, State.phase]
  · intro hrel hphase hne
    rw [hstate] at hphase hne
    obtain ⟨hx, hp, hs⟩ := hm.unasked hphase hne
    rw [hsignals]
    exact ((hwarned hrel hp hs).tail hx).append own

theorem Controller.Doomed.move (h : c.Doomed) (hi : c.inbox = .lifecycle e :: rest)
    (hm : Moves c.interruptible c.state e.signal next effects)
    (ht : t.Moved w c rest next effects) : t.controller.Doomed := by
  obtain ⟨own, hsignals, _⟩ := ht.signals
  by_cases hphase : next.phase ≤ 2
  · by_cases hne : next = .starting true
    · exact .inr (.inl (ht.state.trans hne))
    · obtain ⟨hx, hp, hs⟩ := hm.unasked hphase hne
      rcases h with h | h | h
      · exact absurd hp (Nat.not_le.mpr h)
      · exact absurd h hs
      · refine .inr (.inr ?_)
        rw [Controller.signals, hi, List.filterMap_cons] at h
        rw [hsignals, Graph.warned_append]
        exact .inl ((Graph.warned_cons.mp h).resolve_left hx)
  · exact .inl (ht.state ▸ Nat.lt_of_not_le hphase)

end Move

theorem Turn.Resumed.added {w : World} {t : Turn} {phase : Phase} (h : Linked m n c r)
    (hc : c.callback.isSome = true) (hs : c.state ≠ .started) (ht : t.Resumed w c phase) :
    Reported n r t.controller (reportsOf m t.reported.toList) := by
  have hstate := ht.alike.state
  rw [ht.reported]
  split
  · next hsome => exact .nothing fun hnone => by simp [hnone] at hsome
  · next hsome =>
      have hone : reportsOf m [.report c.plan.name c.state none] =
          [(t.controller.state, none)] := by
        simp [reportsOf, h.name, hstate]
      refine hone ▸ .state none (by simpa using hsome) ?_ fun hstarted => ?_
      · exact hstate ▸ h.suspended hc
      · exact absurd (hstate.symm.trans hstarted) hs

/-- A controller whose suspended callback goes on reports its state once the callback returns. -/
theorem Linked.resume {w : World} {t : Turn} {phase : Phase} (h : Linked m n c r)
    (hc : c.callback.isSome = true) (hs : c.state ≠ .started) (ht : t.Resumed w c phase) :
    Linked m n t.controller (r ++ reportsOf m t.reported.toList) := by
  obtain ⟨own, hsignals, hown⟩ := ht.came.signals
  have hstate := ht.alike.state
  have hkept : ∀ x, x ∈ c.signals → x ∈ t.controller.signals := by
    intro x hx
    rw [hsignals]
    exact List.mem_append_left _ hx
  refine h.advance (ht.added h hc hs) ht.alike.plan (Nat.le_of_eq (by rw [hstate])) ?_ ?_ ?_ ?_ ?_
    ?_ ?_
  · exact fun _ => hstate ▸ h.suspended hc
  · exact fun _ => hstate ▸ id
  · exact hstate ▸ h.resolved c.state List.mem_cons_self
  · intro x hx hno
    rw [hsignals, List.mem_append] at hx
    exact hx.resolve_right fun hx => hno (hown x hx)
  · exact fun hres hw => hkept _ (h.given hres (hstate.symm.trans hw))
  · exact fun hrel hd => hkept _ (h.draining hrel (hstate.symm.trans hd))
  · intro hrel hphase hne
    rw [hstate] at hphase hne
    rw [hsignals]
    exact (h.warned hrel hphase hne).append own

theorem Controller.Doomed.resume {w : World} {t : Turn} {phase : Phase} (h : c.Doomed)
    (ht : t.Resumed w c phase) : t.controller.Doomed := by
  obtain ⟨own, hsignals, _⟩ := ht.came.signals
  unfold Controller.Doomed
  rw [ht.alike.state, hsignals, Graph.warned_append]
  exact h.imp_right (.imp_right .inl)

/-- A removed controller is out of reach: its inbox may go. -/
theorem Linked.of_removed (h : Linked m n c r) (hs : c.state = .removed) (hp : c'.plan = c.plan)
    (hs' : c'.state = .removed) (hc : c'.callback = c.callback) (hi : c'.signals = []) :
    Linked m n c' r := by
  refine ⟨hp ▸ h.name, hp ▸ h.dependencies, h.installed, h.ascending, ?_, ?_, ?_, ?_,
    hp ▸ h.value, ?_, ?_, ?_, ?_, ?_, ?_, ?_⟩ <;> simp only [hp, hs', hc, hi, ← hs]
  · exact h.upTo
  · exact h.suspended
  · exact h.reached
  · exact h.exposes
  · exact h.inUse
  · exact fun s hmem hphase hne => h.resolved s hmem hphase (hs ▸ hne)
  · simp
  · simp [hs]
  · simp
  · simp [hs]
  · simp [hs, State.phase]

/-- The controller left by a turn keeps what it has to do with its service. -/
theorem Linked.final {t : Turn} (h : Linked m n t.controller r)
    (hended : t.controller.ended = true → t.controller.state = .removed) (task : Nat) :
    Linked m n (t.final task) r := by
  unfold Turn.final
  split
  · next he => exact h.of_removed (hended he) rfl (hended he) rfl rfl
  · split
    · exact h
    · exact h.congr rfl rfl rfl rfl

theorem Controller.Doomed.final {t : Turn} (h : t.controller.Doomed)
    (hended : t.controller.ended = true → t.controller.state = .removed) (task : Nat) :
    (t.final task).Doomed := by
  unfold Turn.final
  split
  · next he => exact .inl (by rw [hended he]; decide)
  · split
    · exact h
    · exact h.congr rfl rfl

/-! ## Operations of the container -/

section Told

variable {messages : List Message}

theorem Controller.told_signals (c : Controller) (messages : List Message) :
    (c.told messages).signals =
      c.signals ++ if c.ended then [] else messages.filterMap Message.signal? := by
  unfold told
  by_cases h : c.ended = true <;> simp [h, signals]

theorem Controller.told_plan (c : Controller) (messages : List Message) :
    (c.told messages).plan = c.plan := by
  unfold told
  split <;> rfl

theorem Controller.told_state (c : Controller) (messages : List Message) :
    (c.told messages).state = c.state := by
  unfold told
  split <;> rfl

theorem Controller.told_callback (c : Controller) (messages : List Message) :
    (c.told messages).callback = c.callback := by
  unfold told
  split <;> rfl

theorem Controller.told_ended (c : Controller) (messages : List Message) :
    (c.told messages).ended = c.ended := by
  unfold told
  split <;> rfl

theorem Controller.told_install (c : Controller) (messages : List Message) :
    (c.told messages).install = c.install := by
  unfold told
  split <;> rfl

theorem Controller.told_pending (c : Controller) (messages : List Message) :
    (c.told messages).pending = c.pending := by
  unfold told
  split <;> rfl

theorem Controller.Doomed.told (h : c.Doomed) (messages : List Message) :
    (c.told messages).Doomed := by
  unfold Controller.Doomed
  rw [c.told_state, c.told_signals, Graph.warned_append]
  exact h.imp_right (.imp_right .inl)

/-- A controller that is told to stop is on its way out. -/
theorem Controller.doomed_told (hended : c.ended = true → c.state = .removed)
    (h : Warned (messages.filterMap Message.signal?)) : (c.told messages).Doomed := by
  by_cases he : c.ended = true
  · exact .inl (by rw [c.told_state, hended he]; decide)
  · refine .inr (.inr ?_)
    rw [c.told_signals, if_neg he, Graph.warned_append]
    exact .inr h

/-- What an operation makes of a node, together with what it sends, keeps the node and its
controller in agreement. -/
theorem Linked.carry (h : Linked m n c r) (hended : c.ended = true → c.state = .removed)
    (hcarried : Carried n n' (messages.filterMap Message.signal?)) (hs : n'.state = n.state)
    (hvalue : ∀ v, n'.value = some v → v = c.plan.value)
    (hstopped : .dependentsStopped ∈ messages.filterMap Message.signal? →
      c.Doomed ∨ WarnedFirst (messages.filterMap Message.signal?)) :
    Linked m n' (c.told messages) r := by
  have hsub : ∀ x, x ∈ (c.told messages).signals →
      x ∈ c.signals ∨ x ∈ messages.filterMap Message.signal? := by
    intro x hx
    rw [c.told_signals, List.mem_append] at hx
    refine hx.imp_right fun hx => ?_
    split at hx
    · simp at hx
    · exact hx
  have hsup : c.state ≠ .removed → (c.told messages).signals =
      c.signals ++ messages.filterMap Message.signal? := by
    intro hne
    rw [c.told_signals, if_neg fun he => hne (hended he)]
  have houtlook : n'.outlook r = n.outlook r := by rw [Node.outlook, Node.outlook, hs]
  have hrel : ¬n'.Released → ¬n.Released := fun hno hrel => hno (hcarried.released.mpr (.inl hrel))
  refine ⟨?_, ?_, ?_, ?_, ?_, ?_, ?_, ?_, ?_, ?_, ?_,
    fun hx => hcarried.resolved.mpr ((hsub _ hx).imp_left h.available), ?_,
    fun hx => hcarried.released.mpr ((hsub _ hx).imp_left h.stopped), ?_, ?_⟩ <;>
    simp only [c.told_plan, c.told_state, c.told_callback, houtlook, hs]
  · exact h.name
  · exact h.dependencies.trans hcarried.dependencies.symm
  · exact h.installed
  · exact h.ascending
  · exact h.upTo
  · exact h.suspended
  · exact h.reached
  · exact h.exposes
  · exact hvalue
  · exact fun hno => h.inUse (hrel hno)
  · exact fun s hmem hp hne => hcarried.resolved.mpr (.inl (h.resolved s hmem hp hne))
  · intro hres hw
    rw [hsup (by simp [hw]), List.mem_append]
    exact (hcarried.resolved.mp hres).imp_left fun hres => h.given hres hw
  · intro hrel hd
    rw [hsup (by simp [hd]), List.mem_append]
    exact (hcarried.released.mp hrel).imp_left fun hrel => h.draining hrel hd
  · intro hrel hphase hne
    have hnr : c.state ≠ .removed := by
      intro hr
      simp [hr, State.phase] at hphase
    rw [hsup hnr]
    rcases hcarried.released.mp hrel with hrel | hx
    · exact (h.warned hrel hphase hne).append _
    · rcases hstopped hx with (hd | hd | hd) | ⟨l₁, l₂, he, hw, hx⟩
      · exact absurd hphase (Nat.not_le.mpr hd)
      · exact absurd hd hne
      · exact ⟨_, _, rfl, hd, hx⟩
      · exact ⟨c.signals ++ l₁, l₂, by rw [he, List.append_assoc],
          Graph.warned_append.mpr (.inr hw), hx⟩

end Told

/-- The container takes in the oldest report. -/
theorem Linked.taken {state : State} {value : Option Value}
    (h : Linked m n c ((state, value) :: r)) (hs : state ≠ .removed) :
    Linked m { n with state } c r := by
  have hsub : ∀ s, s ∈ Node.outlook { n with state } r → s ∈ n.outlook ((state, value) :: r) := by
    intro s hs
    simpa [Node.outlook] using Or.inr hs
  refine ⟨h.name, h.dependencies, hs, ?_, fun s hs => h.upTo s (hsub s hs),
    fun hc s hs => h.suspended hc s (hsub s hs), ?_, fun v hv => h.exposes v (by simp [hv]),
    h.value, fun hrel s hs => h.inUse hrel s (hsub s hs), ?_, h.available, h.given, h.stopped,
    h.draining, h.warned⟩
  · exact List.Pairwise.of_cons h.ascending
  · intro hc
    obtain ⟨s, hs, hp⟩ := h.reached hc
    rcases List.mem_cons.mp hs with rfl | hs
    · have hlater : n.state.phase < state.phase := List.rel_of_pairwise_cons h.ascending (by simp)
      have hle := h.upTo state (by simp [Node.outlook])
      omega
    · exact ⟨s, by simpa [Node.outlook] using hs, hp⟩
  · intro s hmem hp hne
    refine h.resolved s ?_ hp hne
    rcases List.mem_cons.mp hmem with hmem | hmem
    · exact hmem ▸ List.mem_cons_self
    · exact List.mem_cons_of_mem _ (hsub s hmem)

/-- A service just installed and its controller. -/
theorem linked_launch (plan : Plan) (ticket : Ticket) (i : Inbox) :
    Linked plan.name (plan.registration.node i) (Controller.launch plan ticket) [] := by
  refine ⟨rfl, rfl, ?_, ?_, ?_, ?_, ?_, ?_, ?_, ?_, ?_, ?_, ?_, ?_, ?_, ?_⟩ <;>
    simp [Registration.node, Controller.launch, Node.outlook, State.phase, State.InUse,
      Controller.signals, Node.Released]

end ServiceHost
