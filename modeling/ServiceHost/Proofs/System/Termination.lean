import ServiceHost.Proofs.System.Budget
import ServiceHost.Proofs.System.Settlement

/-! # The system always settles

Whoever acts in which order, only finitely many steps are made between requests from outside: each
is paid for, and what the system has to pay with is counted beforehand. When nobody can act any
more, and no timer is set, there is no message in flight. -/

namespace ServiceHost.System

variable {s : System} {x : Stimulus} {τ : Tariff}

/-! ## Steps that count -/

/-- Whether someone outside makes a request. -/
def Stimulus.isRequest : Stimulus → Bool
  | .request .. => true
  | _ => false

/-- Whether something is a step: an actor makes a move that it can make, or a timer that is set
goes off. -/
def acts (s : System) : Stimulus → Bool
  | .move m => s.canMove m
  | .elapse t => t ∈ s.world.timers
  | _ => false

/-- The number of steps that are made in the course of a run. -/
def stepsIn (s : System) : List Stimulus → Nat
  | [] => 0
  | x :: rest => (s.acts x).toNat + (s.apply x).stepsIn rest

/-- The services there are and those that may still be installed. -/
def census (s : System) : Nat := s.toll .census

/-- No more steps are made until the next request. -/
def effort (s : System) : Nat := s.toll ⟨1, s.census⟩

/-! ## Steps are paid for -/

/-- There are no more services than controllers, and no more controllers than counted. -/
theorem WellFormed.within (h : s.WellFormed) {crowd : Nat} (hc : s.census ≤ crowd) :
    s.container.graph.Within ⟨1, crowd⟩ := by
  have hsize : s.container.graph.nodes.size ≤ s.controllers.length := by
    refine Graph.size_le_of_inboxes h.sound.coherent.inboxes fun {m n} hn => ?_
    simpa [trial] using h.sound.known hn
  have hheads : s.controllers.length ≤ (s.controllers.map (Controller.toll .census)).sum := by
    induction s.controllers with
    | nil => exact Nat.le_refl 0
    | cons c l ih =>
        have hone := one_le_toll (τ := .census) c
        simp only [List.length_cons, List.map_cons, List.sum_cons]
        omega
  have hcensus : (s.controllers.map (Controller.toll .census)).sum ≤ s.census := by
    unfold census toll
    omega
  unfold Graph.Within
  simp only [Nat.one_mul]
  omega

/-- Whatever happens but a request, it is paid for if it is a step. -/
theorem toll_apply (hu : s.WellFormed) (h : s.container.graph.Within τ) (hx : x.isRequest = false) :
    (s.apply x).toll τ + (s.acts x).toNat * τ.unit ≤ s.toll τ := by
  cases x with
  | move m =>
      show (s.perform m).toll τ + (s.canMove m).toNat * τ.unit ≤ _
      cases hm : s.canMove m with
      | true =>
          rw [Bool.toNat_true, Nat.one_mul]
          exact toll_move hu h hm
      | false => simp [perform, hm]
  | elapse t =>
      show (s.elapse t).toll τ + (decide (t ∈ s.world.timers)).toNat * τ.unit ≤ _
      by_cases ht : t ∈ s.world.timers
      · rw [decide_eq_true ht, Bool.toNat_true, Nat.one_mul]
        exact toll_elapse ht
      · simp [elapse, ht]
  | passOver | wait clock round => simp [acts, apply, toll]
  | request origin o => simp [Stimulus.isRequest] at hx
  | cancel =>
      have hsame : s.cancel.toll τ = s.toll τ :=
        toll_of_unmoved (s := { s with cancelled := true }) (unmoved_cancel s)
          (by rw [cancel_world])
      simp only [acts, apply, Bool.toNat_false]
      omega
  | log level message =>
      have hsame := toll_log (τ := τ) s level message
      simp only [acts, apply, Bool.toNat_false]
      omega
  | giveUp =>
      have hsame : s.giveUp.toll τ = s.toll τ :=
        toll_of_unmoved (unmoved_giveUp s) (by rw [giveUp_world])
      simp only [acts, apply, Bool.toNat_false]
      omega

theorem census_apply (hu : s.WellFormed) (hx : x.isRequest = false) :
    (s.apply x).census ≤ s.census := by
  have hle := toll_apply (τ := .census) hu (by simp [Graph.Within, Tariff.census]) hx
  simpa [census, Tariff.census] using hle

/-- A step uses up some of what the system has to pay with. -/
theorem effort_apply (hu : s.WellFormed) (hx : x.isRequest = false) {crowd : Nat}
    (hc : s.census ≤ crowd) : (s.apply x).toll ⟨1, crowd⟩ + (s.acts x).toNat ≤
      s.toll ⟨1, crowd⟩ := by
  simpa using toll_apply hu (hu.within hc) hx

/-- Without requests, no more steps are made than can be paid for. -/
theorem stepsIn_le (hu : s.WellFormed) {crowd : Nat} (hc : s.census ≤ crowd) {later : List Stimulus}
    (hx : ∀ x ∈ later, x.isRequest = false) : s.stepsIn later ≤ s.toll ⟨1, crowd⟩ := by
  induction later generalizing s with
  | nil => exact Nat.zero_le _
  | cons x later ih =>
      obtain ⟨hfirst, hlater⟩ := List.forall_mem_cons.mp hx
      have hpaid := effort_apply hu hfirst hc
      have hrest := ih (hu.happens (happens_apply s x))
        (Nat.le_trans (census_apply hu hfirst) hc) hlater
      rw [stepsIn]
      omega

/-! ## What never goes on forever -/

/-- The system after the first of infinitely many things have happened to it. -/
def follow (s : System) (future : Nat → Stimulus) : Nat → System
  | 0 => s
  | n + 1 => (s.follow future n).apply (future n)

theorem wellFormed_follow (h : s.WellFormed) (future : Nat → Stimulus) (n : Nat) :
    (s.follow future n).WellFormed := by
  induction n with
  | zero => exact h
  | succ n ih => exact ih.happens (happens_apply _ _)

/-- If only finitely many requests are made, there is a last step. -/
theorem exists_last (hu : s.WellFormed) {future : Nat → Stimulus} {n : Nat}
    (hx : ∀ k ≥ n, (future k).isRequest = false) :
    ∃ n, ∀ k ≥ n, (s.follow future k).acts (future k) = false := by
  -- by induction on what there is to pay with once the last request was made
  suffices hall : ∀ (budget m : Nat), n ≤ m →
      (s.follow future m).census ≤ (s.follow future n).census →
      (s.follow future m).toll ⟨1, (s.follow future n).census⟩ ≤ budget →
      ∃ m, ∀ k ≥ m, (s.follow future k).acts (future k) = false from
    hall _ n (Nat.le_refl n) (Nat.le_refl _) (Nat.le_refl _)
  have hkept : ∀ (m k : Nat), n ≤ m → m ≤ k →
      (s.follow future m).census ≤ (s.follow future n).census →
      (s.follow future k).census ≤ (s.follow future n).census ∧
        (s.follow future k).toll ⟨1, (s.follow future n).census⟩ ≤
          (s.follow future m).toll ⟨1, (s.follow future n).census⟩ := by
    intro m k hm hk hc
    obtain ⟨j, rfl⟩ := Nat.exists_eq_add_of_le hk
    clear hk
    induction j with
    | zero => exact ⟨hc, Nat.le_refl _⟩
    | succ j ih =>
        obtain ⟨hcensus, htoll⟩ := ih
        have hrequest := hx (m + j) (by omega)
        have hpaid := effort_apply (wellFormed_follow hu future (m + j)) hrequest hcensus
        exact ⟨Nat.le_trans (census_apply (wellFormed_follow hu future (m + j)) hrequest) hcensus,
          Nat.le_trans (Nat.le_of_add_right_le hpaid) htoll⟩
  intro budget
  induction budget using Nat.strongRecOn with
  | ind budget ih =>
      intro m hm hc hb
      by_cases hlast : ∀ k ≥ m, (s.follow future k).acts (future k) = false
      · exact ⟨m, hlast⟩
      · push Not at hlast
        obtain ⟨k, hk, hacts⟩ := hlast
        obtain ⟨hcensus, htoll⟩ := hkept m k hm hk hc
        have hrequest := hx k (Nat.le_trans hm hk)
        have hpaid := effort_apply (wellFormed_follow hu future k) hrequest hcensus
        rw [show (s.follow future k).acts (future k) = true by simpa using hacts,
          Bool.toNat_true] at hpaid
        exact ih _ (Nat.lt_of_lt_of_le (Nat.lt_of_lt_of_le hpaid htoll) hb) (k + 1)
          (Nat.le_succ_of_le (Nat.le_trans hm hk))
          (Nat.le_trans (census_apply (wellFormed_follow hu future k) hrequest) hcensus)
          (Nat.le_refl _)

/-- Nobody can act any more, and no timer is set. -/
structure Exhausted (s : System) : Prop where
  quiescent : s.Quiescent
  timers : s.world.timers = []

/-- The system goes on by itself until it is exhausted. -/
theorem exists_exhausted (hu : s.WellFormed) :
    ∃ later : List Stimulus, (∀ x ∈ later, x.isInternal = true) ∧ (s.run later).Exhausted := by
  -- by induction on what there is to pay with
  suffices hall : ∀ (budget : Nat) {s' : System}, s'.WellFormed → s'.census ≤ s.census →
      s'.toll ⟨1, s.census⟩ ≤ budget → ∃ later : List Stimulus,
        (∀ x ∈ later, x.isInternal = true) ∧ (s'.run later).Exhausted from
    hall _ hu (Nat.le_refl _) (Nat.le_refl _)
  intro budget
  induction budget using Nat.strongRecOn with
  | ind budget ih =>
      intro s' hu' hc hb
      have hgo : ∀ x : Stimulus, x.isInternal = true → s'.acts x = true →
          ∃ later : List Stimulus, (∀ x ∈ later, x.isInternal = true) ∧
            (s'.run later).Exhausted := by
        intro x hx hacts
        have hrequest : x.isRequest = false := by
          cases x <;> simp [Stimulus.isInternal, Stimulus.isRequest] at hx ⊢
        have hpaid := effort_apply hu' hrequest hc
        rw [hacts, Bool.toNat_true] at hpaid
        obtain ⟨later, hlater, hend⟩ := ih _ (Nat.lt_of_lt_of_le hpaid hb)
          (hu'.happens (happens_apply s' x)) (Nat.le_trans (census_apply hu' hrequest) hc)
          (Nat.le_refl _)
        exact ⟨x :: later, List.forall_mem_cons.mpr ⟨hx, hlater⟩, hend⟩
      by_cases hq : s'.Quiescent
      · cases ht : s'.world.timers with
        | nil => exact ⟨[], by simp, hq, ht⟩
        | cons timer rest => exact hgo (.elapse timer) rfl (by simp [acts, ht])
      · unfold Quiescent at hq
        push Not at hq
        obtain ⟨m, hm⟩ := hq
        exact hgo (.move m) rfl (by simpa [acts] using hm)

/-! ## Where it ends -/

/-- Who called its task off does not wait for it. -/
def Dismissed (s : System) : Prop := ∀ t ∈ s.tasks, t.state = .calledOff → t.watched = false

theorem Dismissed.apply (h : s.Dismissed) (x : Stimulus) : (s.apply x).Dismissed := by
  intro t' ht' hoff
  obtain ⟨i, hi⟩ := List.getElem?_of_mem ht'
  have hb := taskBefalls_apply s x i
  have hold : ∀ t : Task, s.tasks[i]? = some t → t.state = .calledOff → t.watched = false :=
    fun t ht => h t (List.mem_of_getElem? ht)
  generalize hold₀ : s.tasks[i]? = o at hb hold
  rw [hi] at hb
  cases hb with
  | kept hs hwork hw => exact hw.trans (hold _ rfl (hs.symm.trans hoff))
  | alarmed t =>
      refine hold t rfl ?_
      unfold Task.alarm at hoff
      cases hstate : t.state <;> simp [hstate] at hoff ⊢
  | ran t hx ht hcan =>
      unfold Task.canRun at hcan
      unfold Task.run Task.complete at hoff
      cases hstate : t.state <;> cases hending : t.work.ending <;>
        simp only [hstate, hending] at hcan hoff <;> try contradiction
      all_goals repeat' split at hoff
      all_goals contradiction
  | joined => rfl
  | calledOff => rfl
  | launched hl hs hw => simp [hs] at hoff

theorem dismissed_run (happened : List Stimulus) : (initial.run happened).Dismissed := by
  induction happened using List.reverseRecOn with
  | nil => exact fun t ht => absurd ht List.not_mem_nil
  | append_singleton happened x ih =>
      rw [run_append]
      exact ih.apply x

/-- No message is in flight, except before callbacks that are suspended. -/
structure Calmed (s : System) : Prop where
  requests : s.container.inbox = []
  messages : ∀ c ∈ s.controllers, c.callback = none → c.inbox = []

/-- Nothing is in flight, except before callbacks that wait for an answer nobody has given. -/
structure Spent (s : System) : Prop extends s.Calmed where
  completions : ∀ t ∈ s.tasks, t.isOver = true
  callbacks : ∀ c ∈ s.controllers, ∀ callback, c.callback = some callback →
    ∃ k awaited, callback.wait = .answer k awaited ∧ s.world.status k = some none

/-- If every callback has returned, nothing is in flight at all. -/
theorem Spent.settled (h : s.Spent) (hc : ∀ c ∈ s.controllers, c.callback = none) : s.Settled where
  requests := h.requests
  messages c hmem := h.messages c hmem (hc c hmem)
  callbacks := hc
  completions t ht := (Task.isOver_iff.mp (h.completions t ht)).1

theorem Quiescent.calmed (h : s.Quiescent) (hu : s.WellFormed) : s.Calmed := by
  refine ⟨?_, fun c hc hfree => ?_⟩
  · cases hs : s.container.isServing with
    | false => exact hu.container.idle hs
    | true =>
        have hreceive := h .receive
        simpa [canMove, hs] using hreceive
  · obtain ⟨i, hi⟩ := List.getElem?_of_mem hc
    cases hlive : c.ended with
    | true => exact ((hu.controllers hi).ended hlive).2.1
    | false =>
        have htake := h (.take i)
        simpa [canMove, hi, Controller.canTake, hlive, hfree] using htake

theorem Exhausted.spent (h : s.Exhausted) (hu : s.WellFormed) (ha : s.WaitsBacked)
    (hd : s.Dismissed) : s.Spent := by
  refine ⟨h.quiescent.calmed hu, fun t ht => ?_, fun c hc callback hcallback => ?_⟩
  · obtain ⟨i, hi⟩ := List.getElem?_of_mem ht
    have hrun := h.quiescent (.run i)
    have hjoin := h.quiescent (.join i)
    have hasleep := ha.tasks hi
    have hleft := ha.left hi
    have hoff := hd t ht
    simp only [h.timers, List.not_mem_nil, false_and, exists_false] at hasleep
    simp only [canMove, hi, Option.any_some, Task.canRun, Task.outcome?] at hrun hjoin
    unfold Task.Unstoppable Task.Done Task.isBusy at hleft
    unfold Task.isOver
    cases hstate : t.state <;> simp_all
  · obtain ⟨i, hi⟩ := List.getElem?_of_mem hc
    have hresume := h.quiescent (.resume i)
    simp only [canMove, hi, Option.any_some, Controller.canResume, Controller.wakeUp?,
      hcallback] at hresume
    cases hwait : callback.wait with
    | timer =>
        obtain ⟨timer, htimer, -⟩ := ha.timers hi hcallback hwait
        simp [h.timers] at htimer
    | elapsed => simp [hwait] at hresume
    | answer k awaited =>
        refine ⟨k, awaited, rfl, ?_⟩
        have hmade := (ha.answers hi hcallback hwait).made
        cases hstatus : s.world.status k with
        | none => exact absurd hstatus hmade
        | some promise =>
            cases promise with
            | none => rfl
            | some o => simp [hwait, World.outcome?_eq_some.mpr hstatus] at hresume

/-! ## Reachable systems -/

/-- A system always settles. -/
structure AlwaysSettles (s : System) : Prop where
  /-- Until the next request, however everyone acts, only so many steps are made. -/
  bounded : ∀ later : List Stimulus, (∀ x ∈ later, x.isRequest = false) →
    s.stepsIn later ≤ s.effort
  /-- If only finitely many requests are made, there is a last step. -/
  last : ∀ (future : Nat → Stimulus) (n : Nat), (∀ k ≥ n, (future k).isRequest = false) →
    ∃ m, ∀ k ≥ m, (s.follow future k).acts (future k) = false
  /-- By itself it comes to a point where nobody can act and no timer is set. -/
  reached : ∃ later : List Stimulus, (∀ x ∈ later, x.isInternal = true) ∧
    (s.run later).Exhausted
  /-- When nobody can act, messages are only before callbacks that are suspended. -/
  calmed : ∀ later : List Stimulus, (s.run later).Quiescent → (s.run later).Calmed
  /-- When no timer is set either, those wait for answers nobody has given. -/
  spent : ∀ later : List Stimulus, (s.run later).Exhausted → (s.run later).Spent
  /-- If every callback has returned then, nothing is in flight at all. -/
  settled : ∀ later : List Stimulus, (s.run later).Exhausted →
    (∀ c ∈ (s.run later).controllers, c.callback = none) → (s.run later).Settled

/-- Every system that can be reached settles. -/
theorem alwaysSettles_run (happened : List Stimulus) : AlwaysSettles (initial.run happened) := by
  have hspent : ∀ later : List Stimulus, ((initial.run happened).run later).Exhausted →
      ((initial.run happened).run later).Spent := by
    intro later h
    rw [← run_append] at h ⊢
    exact h.spent (wellFormed_run _) (waitsBacked_run _) (dismissed_run _)
  refine ⟨fun _ hx => stepsIn_le (wellFormed_run happened) (Nat.le_refl _) hx,
    fun _ _ hx => exists_last (wellFormed_run happened) hx,
    exists_exhausted (wellFormed_run happened),
    fun later h => ?_, hspent, fun later h hc => (hspent later h).settled hc⟩
  rw [← run_append] at h ⊢
  exact h.calmed (wellFormed_run _)

end ServiceHost.System
