import ServiceHost.Proofs.System.Entrance
import ServiceHost.Proofs.System.Termination

/-! # A failed start is contained

A service that is installed and fails to start is gone in the end, along with those that waited for
it. Its installer is told why, its `stop` is not called, and nobody else takes notice. -/

namespace ServiceHost

namespace System

variable {s₁ s : System} {d : Service} {f : Failure}

/-! ## Runs -/

section Run

variable {before after : List Stimulus} {origin : Origin}

theorem FailsToStart.run (h : FailsToStart (initial.run before) d f) (origin : Origin)
    (hb : ∀ x ∈ before, x ≠ .cancel) (ha : ∀ x ∈ after, x.isInternal = true) :
    (initial.run before).Fails d f
      (initial.run (before ++ .request origin (.install d) :: after)) := by
  refine request_induction (P := fun happened => (initial.run before).Fails d f
    (initial.run (before ++ happened))) hb ha ?_ fun _ hx ho hs _ hc =>
      hc.step h (orderly_run hb) ho hs hx
  rw [run_append]
  exact .awaits (h.awaits origin)

theorem FailsToStart.fares (h : FailsToStart (initial.run before) d f) (origin : Origin)
    (hb : ∀ x ∈ before, x ≠ .cancel) (ha : ∀ x ∈ after, x.isInternal = true) {j : Nat}
    {c₀ : Controller} (hc₀ : (initial.run before).controllers[j]? = some c₀) :
    ∃ c, (initial.run (before ++ .request origin (.install d) :: after)).controllers[j]? = some c ∧
      Fares before (.request origin (.install d) :: after) d.name j c₀ c := by
  have h₀ := orderly_run hb
  have hj : j ≠ (initial.run before).controllers.length :=
    Nat.ne_of_lt (List.getElem?_eq_some_iff.mp hc₀).1
  refine request_induction (P := fun happened =>
    ∃ c, (initial.run (before ++ happened)).controllers[j]? = some c ∧
      Fares before happened d.name j c₀ c) hb ha ?_ ?_
  · refine ⟨c₀, ?_, .begins ..⟩
    rw [run_append]
    exact (congrArg (·[j]?) (h.awaits origin).controllers).trans hc₀
  · rintro mid x hno hx ho hs hmid ⟨c, hc, hf⟩
    obtain ⟨c', hc'⟩ := (ho.supplying hs).exists_controller hc
    have hfails := h.run origin hb hmid
    obtain ⟨b, hb₀, hplan, haborts, hstill⟩ := hfails.other h h₀ hc hj
    obtain rfl := Option.some.inj (hc₀.symm.trans hb₀)
    refine ⟨c', hc', hf.step (hfails.not_starting h h₀ hc hj)
      ((hfails.step h h₀ ho hs hx).not_starting h h₀ hc' hj) (fun e he => ?_)
      (fun _ _ o hanswer => ?_) hno hs hc hc'⟩
    · by_contra hw
      simp [effects_of_silent (hstill hw).2.2] at he
    · have hw : (initial.run before).Within d.name j := by
        by_contra hw
        obtain ⟨e, he, _⟩ := Controller.exists_of_answer? hanswer
        simp [(hstill hw).2.2] at he
      exact hplan ▸ (haborts hw).answer hanswer

/-- The `stop` of a service that fails to start is not called. -/
theorem FailsToStart.unstopped (h : FailsToStart (initial.run before) d f) (origin : Origin)
    (hb : ∀ x ∈ before, x ≠ .cancel) (ha : ∀ x ∈ after, x.isInternal = true) :
    ∀ e ∈ (initial.run before).trace (.request origin (.install d) :: after)
      (initial.run before).controllers.length, e.isStop = false := by
  refine request_induction (P := fun happened => ∀ e ∈ (initial.run before).trace happened
    (initial.run before).controllers.length, e.isStop = false) hb ha ?_ ?_
  · intro e he
    rw [show (initial.run before).trace [.request origin (.install d)] _ = [] from
      (List.append_nil _).trans (effects_of_ne (by simp) _)] at he
    cases he
  · intro mid x hno hx ho hs hmid ih e he
    rw [← List.cons_append, trace_snoc, ← run_append, List.mem_append] at he
    rcases he with he | he
    · exact ih e he
    · obtain ⟨c, _, hc, _, he, _⟩ := take_of_effects he
      exact ((h.run origin hb hmid).self hc).2.isStop_of_effects he

/-- The promise made for a service that fails to start. -/
structure Founders (before happened : List Stimulus) (d : Service) (f : Failure) (c : Controller) :
    Prop where
  launched : LaunchedBy (before ++ happened) (initial.run before).controllers.length (d.plan none)
    (initial.run before).world.pledges.length
  told : c.install = some (initial.run before).world.pledges.length ∨
    (initial.run (before ++ happened)).world.status (initial.run before).world.pledges.length =
      some (some (.error (.startFailure d.name f)))

theorem FailsToStart.founders (h : FailsToStart (initial.run before) d f) (origin : Origin)
    (hb : ∀ x ∈ before, x ≠ .cancel) (ha : ∀ x ∈ after, x.isInternal = true) :
    ∀ {c : Controller},
      (initial.run (before ++ .request origin (.install d) :: after)).controllers[
        (initial.run before).controllers.length]? = some c →
      Founders before (.request origin (.install d) :: after) d f c := by
  refine request_induction (P := fun happened => ∀ {c : Controller},
    (initial.run (before ++ happened)).controllers[(initial.run before).controllers.length]? =
      some c → Founders before happened d f c) hb ha ?_ ?_
  · intro c hc
    rw [run_append, show (initial.run before).run [.request origin (.install d)] =
      (initial.run before).apply (.request origin (.install d)) from rfl,
      (h.awaits origin).controllers] at hc
    simp at hc
  · intro mid x hno hx ho hs hmid ih c' hc'
    have hrun : initial.run (before ++ .request origin (.install d) :: (mid ++ [x])) =
        (initial.run (before ++ .request origin (.install d) :: mid)).apply x := by
      rw [← List.cons_append, ← List.append_assoc, run_snoc]
    have hfails := h.run origin hb hmid
    -- either its controller was there before the step, or it is launched in it
    have hthere : ∀ {c : Controller},
        (initial.run (before ++ .request origin (.install d) :: mid)).controllers[
          (initial.run before).controllers.length]? = some c →
        Founders before (.request origin (.install d) :: (mid ++ [x])) d f c' := by
      intro c hc
      obtain ⟨hlaunched, htold⟩ := ih hc
      refine ⟨?_, ?_⟩
      · rw [← List.cons_append, ← List.append_assoc]
        exact launchedBy_snoc.mpr (.inl hlaunched)
      · rw [hrun] at hs hc' ⊢
        rcases htold with hinstall | hsettled
        · refine (ho.told_installer (owned_run hno) (owes_run hno hc) hs hc hinstall hc').imp_right ?_
          rintro ⟨o, _, _, hanswer, hstatus⟩
          obtain ⟨hplan, hc⟩ := hfails.self hc
          rw [hstatus, hc.answer hanswer, hplan, d.plan_name]
        · exact .inr (((ledger_run hno).step ho hs).2.settled hsettled)
    cases ho.becomes hs hc' with
    | rests hc => exact hthere hc
    | takes _ hc => exact hthere hc
    | launched plan ticket messages hx hlen hlaunched =>
        subst hx
        obtain ⟨plan, ticket, rest, messages, hi, hst, hfree, hlen, hlast⟩ :=
          launched_receive (List.getElem?_eq_some_iff.mp hc').1 hlen hrun
        obtain rfl := Option.some.inj (hc'.symm.trans hlast)
        cases hfails with
        | sinks s₁ h₁ hlength => omega
        | awaits h =>
            rw [h.container] at hi
            obtain ⟨he, rfl⟩ := List.cons.inj hi
            cases he
            refine ⟨?_, .inl (Controller.told_install _ _)⟩
            rw [← List.cons_append, ← List.append_assoc]
            exact launchedBy_snoc.mpr (.inr ⟨rfl, [], by rw [h.container], hst, hfree, hlen⟩)

/-! ## What is left -/

/-- Once nothing is under way any more, a service that failed to start is not installed. -/
theorem Sinks.gone {i : Nat} (h : Sinks s₁ d i f s) (h₁ : s₁.container.graph.Hosts d.name i)
    (ho : s.Orderly) (hs : s.Settled) : s.container.graph.nodes[d.name]? = none := by
  refine Option.eq_none_iff_forall_ne_some.mpr fun n' hn' => ?_
  obtain ⟨n, hn, rfl⟩ := h₁
  obtain ⟨n₁, hn₁, hinbox, _⟩ := h.confined.nodes hn'
  obtain rfl := Option.some.inj (hn.symm.trans hn₁)
  obtain ⟨c, hc, _, _, _, _, hrests⟩ := (ho.steady hs).installed hn'
  obtain ⟨_, hfails⟩ := h.failing (hinbox ▸ hc)
  rcases hrests with ⟨hst, _⟩ | ⟨hst, _⟩
  · exact hfails.not_started (by simp [hst, State.phase])
  · cases hfails with
    | offered _ _ _ hmem => simp [hs.messages c (List.mem_of_getElem? hc)] at hmem
    | starting hs' | stopping hs' | removed hs' => simp [hs'] at hst

/-- What a service leaves that failed to start, once nothing is under way any more. -/
structure Contained (before happened : List Stimulus) (d : Service) (f : Failure) : Prop where
  launched : LaunchedBy (before ++ happened) (initial.run before).controllers.length (d.plan none)
    (initial.run before).world.pledges.length
  told : (initial.run (before ++ happened)).world.outcome?
    (initial.run before).world.pledges.length = some (.error (.startFailure d.name f))
  unstopped : ((initial.run before).trace happened
    (initial.run before).controllers.length).countP Effect.isStop = 0
  gone : (initial.run (before ++ happened)).container.graph.contains d.name = false
  emptied : ∀ {l : Label}, (d.plan none).Binds l →
    (initial.run (before ++ happened)).world.cells.content? l = none
  installed : ∀ {m : Name} {j : Nat}, (initial.run (before ++ happened)).container.graph.Hosts m j ↔
    (initial.run before).container.graph.Hosts m j ∧
      ¬(initial.run before).container.graph.Above d.name m
  aborted : ∀ {m : Name} {n : Node} {c : Controller},
    (initial.run before).container.graph.nodes[m]? = some n →
    (initial.run before).controllers[n.inbox]? = some c →
    (initial.run before).container.graph.Above d.name m → c.state = .waiting ∧
      .injectAndStart ∉ (initial.run before).trace happened n.inbox ∧
      ((initial.run before).trace happened n.inbox).countP Effect.isStop = 0 ∧
      ∃ k, LaunchedBy before n.inbox c.plan k ∧
        (initial.run (before ++ happened)).world.outcome? k = some (.error (.interrupted m))
  spared : ∀ {m : Name} {n : Node} {c : Controller},
    (initial.run before).container.graph.nodes[m]? = some n →
    (initial.run before).controllers[n.inbox]? = some c →
    ¬(initial.run before).container.graph.Above d.name m →
    (initial.run before).trace happened n.inbox = [] ∧
      (∃ n', (initial.run (before ++ happened)).container.graph.nodes[m]? = some n' ∧
        n'.inbox = n.inbox ∧ n'.state = n.state) ∧
      ∃ c', (initial.run (before ++ happened)).controllers[n.inbox]? = some c' ∧
        c'.plan = c.plan ∧ c'.state = c.state
  untouched : ∀ {l : Label}, ¬(d.plan none).Binds l →
    (initial.run (before ++ happened)).world.cells.slot? l =
      (initial.run before).world.cells.slot? l

/-- Whoever acts in which order, in the end nothing is under way any more. -/
theorem FailsToStart.settles (h : FailsToStart (initial.run before) d f) (origin : Origin)
    (hb : ∀ x ∈ before, x ≠ .cancel) (ha : ∀ x ∈ after, x.isInternal = true) :
    ∃ later : List Stimulus, (∀ x ∈ later, x.isInternal = true) ∧
      (initial.run (before ++ .request origin (.install d) :: (after ++ later))).Settled := by
  obtain ⟨later, hlater, hend⟩ :=
    exists_exhausted (wellFormed_run (before ++ .request origin (.install d) :: after))
  refine ⟨later, hlater, ?_⟩
  rw [← run_append, List.append_assoc, List.cons_append] at hend
  have hspent := hend.spent (wellFormed_run _) (waitsBacked_run _) (dismissed_run _)
  refine hspent.settled fun c hc => Option.eq_none_iff_forall_ne_some.mpr fun callback hk => ?_
  obtain ⟨ticket, awaited, hwait, _⟩ := hspent.callbacks c hc callback hk
  obtain ⟨j, hj⟩ := List.getElem?_of_mem hc
  exact (h.run origin hb (List.forall_mem_append.mpr ⟨ha, hlater⟩)).unasking h (orderly_run hb) hj hk
    ticket awaited hwait

/-- A service that fails to start is gone in the end, along with those that waited for it, and
nobody else takes notice. -/
theorem FailsToStart.contained (h : FailsToStart (initial.run before) d f)
    (hb : ∀ x ∈ before, x ≠ .cancel) (ha : ∀ x ∈ after, x.isInternal = true)
    (hs : (initial.run (before ++ .request origin (.install d) :: after)).Settled) :
    Contained before (.request origin (.install d) :: after) d f := by
  have h₀ := orderly_run hb
  have hno := not_cancel_of_internal origin (.install d) hb ha
  have ho := orderly_run hno
  obtain ⟨s₁, h₁, hlength, hsinks⟩ := (h.run origin hb ha).entered hs
  obtain ⟨n₁, hn₁, hi₁, _⟩ := h₁.node
  have hgone := hsinks.gone ⟨n₁, hn₁, hi₁⟩ ho hs
  have hnone : ∀ {m}, s₁.container.graph.Above d.name m →
      (initial.run (before ++ .request origin (.install d) :: after)).container.graph.nodes[m]? =
        none :=
    hsinks.confined.none_above hsinks.dooms ho hs (by simp [Graph.contains_eq, hn₁]) hgone
  have hold : ∀ {m : Name} {n : Node}, (initial.run before).container.graph.nodes[m]? = some n →
      s₁.container.graph.nodes[m]? = some n := by
    intro m n hn
    refine (h₁.nodes ?_).trans hn
    rintro rfl
    simp [h.free] at hn
  have hc := List.getElem?_eq_getElem hlength
  have hremoved := hsinks.confined.removed hnone h₁.orderly ho hs .self hn₁ (by rwa [hi₁])
  obtain ⟨hplan, hfails⟩ := hsinks.failing hc
  obtain ⟨hlaunched, htold⟩ := h.founders origin hb ha hc
  refine ⟨hlaunched, ?_, ?_, ?_, fun {l} hl => ?_, fun {m j} => ?_, ?_, ?_, fun {l} hl => ?_⟩
  · refine World.outcome?_eq_some.mpr (htold.resolve_left fun hopen => ?_)
    rw [(owes_run hno hc).install_eq_none hremoved] at hopen
    cases hopen
  · exact List.countP_eq_zero.mpr fun e he => by simp [h.unstopped origin hb ha e he]
  · simp [Graph.contains_eq, hgone]
  · exact hfails.empty hremoved l (hplan ▸ hl)
  · rw [hsinks.confined.hosts_iff hnone, h₁.above_iff h.free]
    refine and_congr_left fun hm => exists_congr fun n => ?_
    rw [h₁.nodes fun he => hm (he ▸ .self)]
  · intro m n c hn hc hm
    have hw := h.waits h₀ hm hn hc
    obtain ⟨c', hc', hf⟩ := h.fares origin hb ha hc
    obtain ⟨c₁, hc₁, hl⟩ := h₀.consistent.linked hn
    obtain rfl := Option.some.inj (hc.symm.trans hc₁)
    rw [← hl.name]
    exact ⟨hw, hf.interrupted hno hc hc' hw (hsinks.confined.removed hnone h₁.orderly ho hs
      ((h₁.above_iff h.free).mpr hm) (hold hn) hc')⟩
  · intro m n c hn hc hm
    have hout := h₀.not_within hn hm
    obtain ⟨c', hc', hf⟩ := h.fares origin hb ha hc
    obtain ⟨c₀, hc₀, hplan, _, hstill⟩ := (h.run origin hb ha).other h h₀ hc'
      (Nat.ne_of_lt (List.getElem?_eq_some_iff.mp hc).1)
    obtain rfl := Option.some.inj (hc.symm.trans hc₀)
    exact ⟨hf.silent hout, hsinks.confined.spares (hold hn) (mt (h₁.above_iff h.free).mp hm),
      c', hc', hplan, (hstill hout).1⟩
  · rw [hsinks.slots.kept hl, h₁.cells, Cells.slot?_createFor_of_not hl]

/-- A service that fails to start is contained: whoever acts in which order, in the end nothing is
under way any more, and by then all there was is gone of that service and of those above it, and
nobody else has taken notice. -/
theorem contained_run (hb : ∀ x ∈ before, x ≠ .cancel) (h : FailsToStart (initial.run before) d f)
    (ha : ∀ x ∈ after, x.isInternal = true) :
    (∃ later : List Stimulus, (∀ x ∈ later, x.isInternal = true) ∧
      (initial.run (before ++ .request origin (.install d) :: (after ++ later))).Settled) ∧
    ((initial.run (before ++ .request origin (.install d) :: after)).Settled →
      Contained before (.request origin (.install d) :: after) d f) :=
  ⟨h.settles origin hb ha, h.contained hb ha⟩

end Run

theorem FailsToStart.of_run {before : List Stimulus} (hs : (initial.run before).Settled)
    (hst : (initial.run before).container.stage = .opened)
    (hfree : (initial.run before).container.graph.contains d.name = false)
    (hstarted : ∀ e ∈ d.dependencies ++ d.slots.map (·.dependency), (initial.run before).HasStarted e)
    (hfails : ((initial.run before).container.graph.available? (d.plan none).dependencies).bind
      ((d.plan none).startOutcome? ((initial.run before).world.cells.createFor d)) =
        some (.error f)) : FailsToStart (initial.run before) d f := by
  have hnone : (initial.run before).container.graph.nodes[d.name]? = none := by
    rwa [Graph.contains_eq, Option.isSome_eq_false_iff, Option.isNone_iff_eq_none] at hfree
  refine ⟨hs, hst, hnone, fun {e} he => hstarted e ?_,
    fun {values} hvalues => by simpa [hvalues] using hfails⟩
  rcases he with he | ⟨b, hb, rfl⟩
  · exact List.mem_append_left _ he
  · exact List.mem_append_right _ (List.mem_map_of_mem hb)

/-- Two services wait for one that is missing, the second by way of the first. -/
def awaitsOne : List Stimulus :=
  [.request (.request 0) .start, .request (.request 1) (.install (plainService "base" [])),
    .request (.request 2) (.install (plainService "late" ["bad"])),
    .request (.request 3) (.install (plainService "later" ["late", "base"]))] ++ turns 8 3

/-- A service that fails to start. -/
def badService : Service :=
  { plainService "bad" ["base"] with callbacks := .scripted false [.fail (.ofMessage "no")] [] }

theorem contained_awaitsOne : (∀ x ∈ awaitsOne, x ≠ .cancel) ∧
    FailsToStart (initial.run awaitsOne) badService (.ofMessage "no") ∧
    (initial.run (awaitsOne ++ .request (.request 4) (.install badService) :: turns 12 4)).Settled ∧
    Contained awaitsOne (.request (.request 4) (.install badService) :: turns 12 4) badService
      (.ofMessage "no") := by
  have hx : ∀ x ∈ awaitsOne, x ≠ .cancel :=
    List.forall_mem_append.mpr ⟨by simp, not_cancel_turns 8 3⟩
  have hf : FailsToStart (initial.run awaitsOne) badService (.ofMessage "no") :=
    .of_run (by decide +kernel) (by decide +kernel) (by decide +kernel) (by decide +kernel)
      (by decide +kernel)
  have hs : (initial.run
      (awaitsOne ++ .request (.request 4) (.install badService) :: turns 12 4)).Settled := by
    decide +kernel
  exact ⟨hx, hf, hs, (contained_run hx hf (isInternal_turns 12 4)).2 hs⟩

/-- A service, and one that has a slot for its value. -/
def slotFilled : List Stimulus :=
  [.request (.request 0) .start,
    .request (.request 1) (.install { plainService "d" [] with value := .u64 7 }),
    .request (.request 2) (.install { plainService "y" [] with slots := [⟨"d", .u64, "l"⟩] })] ++
    turns 8 2

/-- A service that fails to start, and shares a slot. -/
def sharingService : Service :=
  { plainService "x" [] with
    slots := [⟨"d", .u64, "l"⟩]
    callbacks := .scripted false [.fail (.ofMessage "no")] [] }

/-- Slots of services that are not concerned may be emptied: those they share with the one that
fails to start. -/
theorem not_untouched_of_contained : ¬∀ (before after : List Stimulus) (origin : Origin)
    (d : Service) (f : Failure), (∀ x ∈ before, x ≠ .cancel) →
    (∀ c ∈ (initial.run before).controllers,
      c.plan.conduct.Tame .start ∧ c.plan.conduct.Tame .stop) →
    FailsToStart (initial.run before) d f → (∀ x ∈ after, x.isInternal = true) →
    (initial.run (before ++ .request origin (.install d) :: after)).Settled →
    ∀ (m : Name) (n : Node) (c : Controller) (l : Label),
      (initial.run before).container.graph.nodes[m]? = some n →
      (initial.run before).controllers[n.inbox]? = some c →
      ¬(initial.run before).container.graph.Above d.name m → c.plan.Binds l →
      (initial.run (before ++ .request origin (.install d) :: after)).world.cells.slot? l =
        (initial.run before).world.cells.slot? l := by
  intro h
  have hx : ∀ x ∈ slotFilled, x ≠ .cancel :=
    List.forall_mem_append.mpr ⟨by simp, not_cancel_turns 8 2⟩
  have hf : FailsToStart (initial.run slotFilled) sharingService (.ofMessage "no") :=
    .of_run (by decide +kernel) (by decide +kernel) (by decide +kernel) (by decide +kernel)
      (by decide +kernel)
  obtain ⟨n, hn⟩ : ∃ n, (initial.run slotFilled).container.graph.nodes["y"]? = some n :=
    Option.isSome_iff_exists.mp (by decide +kernel)
  obtain ⟨c, hc, hname, _⟩ := ((orderly_run hx).steady hf.settled).installed hn
  have hout : ¬(initial.run slotFilled).container.graph.Above "x" "y" := fun hy =>
    absurd (hy.mem_of_closed (l := ["x"]) (by decide) (by decide +kernel)) (by decide)
  have hbinds : ∀ c ∈ (initial.run slotFilled).controllers, c.plan.name = "y" →
      "l" ∈ c.plan.slotsOf "d" := by decide +kernel
  have hkept := h slotFilled (turns 8 3) (.request 3) sharingService (.ofMessage "no") hx
    (by decide +kernel) hf (isInternal_turns 8 3) (by decide +kernel) "y" n c "l" hn hc hout
    ⟨"d", hbinds c (List.mem_of_getElem? hc) hname⟩
  revert hkept
  decide +kernel

end System

end ServiceHost
