import ServiceHost.Proofs.System.Ownership

/-! # Whom a promise was made to

A promise to an installer belongs to the controller the container launched for it, and a promise to
remove a service is bound to the controller that was installed then. Once nothing is under way, an
installer without an answer has a service that waits. -/

namespace ServiceHost

namespace System

variable {s s' : System} {k : Ticket} {i : Nat}

/-! ## Who installed which service -/

/-- A controller was launched when the container took this request to install a service. -/
def LaunchedBy (happened : List Stimulus) (i : Nat) (plan : Plan) (k : Ticket) : Prop :=
  ∃ (before after : List Stimulus) (rest : List Request),
    happened = before ++ .move .receive :: after ∧
    (initial.run before).container.inbox = .install plan k :: rest ∧
    (initial.run before).container.stage = .opened ∧
    (initial.run before).container.graph.contains plan.name = false ∧
    (initial.run before).controllers.length = i

theorem launchedBy_snoc {happened : List Stimulus} {x : Stimulus} {plan : Plan} :
    LaunchedBy (happened ++ [x]) i plan k ↔ LaunchedBy happened i plan k ∨
      (x = .move .receive ∧ ∃ rest,
        (initial.run happened).container.inbox = .install plan k :: rest ∧
        (initial.run happened).container.stage = .opened ∧
        (initial.run happened).container.graph.contains plan.name = false ∧
        (initial.run happened).controllers.length = i) := by
  constructor
  · rintro ⟨before, after, rest, hsplit, h⟩
    rcases append_eq_split.mp hsplit with ⟨rfl, rfl, _⟩ | ⟨after, _, rfl⟩
    · exact .inr ⟨rfl, rest, h⟩
    · exact .inl ⟨before, after, rest, rfl, h⟩
  · rintro (⟨before, after, rest, rfl, h⟩ | ⟨rfl, rest, h⟩)
    · exact ⟨before, after ++ [x], rest, by simp, h⟩
    · exact ⟨happened, [], rest, rfl, h⟩

/-- A controller launched by a step was launched by the request the container took. -/
theorem launched_receive (hx : i < s'.controllers.length) (hi : s.controllers.length ≤ i)
    (hs' : s' = s.apply (.move .receive)) :
    ∃ (plan : Plan) (ticket : Ticket) (rest : List Request) (messages : List Message),
      s.container.inbox = .install plan ticket :: rest ∧ s.container.stage = .opened ∧
      s.container.graph.contains plan.name = false ∧ s.controllers.length = i ∧
      s'.controllers[i]? = some ((Controller.launch plan ticket).told messages) := by
  subst hs'
  rcases apply_receive s with ⟨r, rest, hs, hinbox, happly⟩ | ⟨_, happly⟩
  · rw [happly] at hx ⊢
    have hhears := ((mirrors_trial s).receive hinbox).2 i
    cases r with
    | install plan ticket =>
        simp only [launches] at hhears
        split at hhears
        · next hopen =>
            have hlast : (s.controllers ++ [Controller.launch plan ticket])[i]?.isSome = true := by
              have := congrArg Option.isSome hhears
              simpa [hx] using this.symm
            have hlen : s.controllers.length = i := by
              simp only [Option.isSome_iff_exists, List.getElem?_eq_some_iff] at hlast
              obtain ⟨_, hlt, _⟩ := hlast
              simp only [List.length_append, List.length_singleton] at hlt
              omega
            rw [← hlen, List.getElem?_concat_length] at hhears
            exact ⟨plan, ticket, rest, _, hinbox, hopen.1, hopen.2, hlen, hlen ▸ hhears⟩
        · simp [List.getElem?_eq_none hi, hx] at hhears
    | _ => simp [launches, List.getElem?_eq_none hi, hx] at hhears
  · rw [happly] at hx
    omega

theorem LaunchedBy.lt {happened : List Stimulus} (hx : ∀ x ∈ happened, x ≠ .cancel) {plan : Plan}
    (h : LaunchedBy happened i plan k) : i < (initial.run happened).controllers.length := by
  refine run_induction (P := fun happened => ∀ {i : Nat} {plan : Plan} {k : Ticket},
    LaunchedBy happened i plan k → i < (initial.run happened).controllers.length) ?_ ?_ hx h
  · rintro i plan k ⟨before, after, rest, hsplit, _⟩
    simp at hsplit
  · intro happened x ho hs ih i plan k h
    rcases launchedBy_snoc.mp h with h | ⟨rfl, rest, hi, hst, hfree, hlen⟩
    · exact Nat.lt_of_lt_of_le (ih h) (ho.supplying hs).length
    · have hserving := isServing_iff.mpr (.inl hst)
      have hgrows := length_of_map ((mirrors_trial _).receive hi).2
      rw [run_receive hserving hi]
      show i < (initial.run happened).receive.controllers.length
      rw [hgrows, ← hlen]
      simp [launches, hst, hfree]

/-- Every controller was launched by one request, and no one but who sent it is to be answered. -/
theorem launchedBy_run {happened : List Stimulus} (hx : ∀ x ∈ happened, x ≠ .cancel)
    {c : Controller} (hc : (initial.run happened).controllers[i]? = some c) :
    ∃ k, (∀ {plan j}, LaunchedBy happened i plan j ↔ plan = c.plan ∧ j = k) ∧
      ∀ j, c.install = some j → j = k := by
  refine run_induction (P := fun happened => (∀ x ∈ happened, x ≠ .cancel) →
    ∀ {i : Nat} {c : Controller}, (initial.run happened).controllers[i]? = some c →
    ∃ k, (∀ {plan j}, LaunchedBy happened i plan j ↔ plan = c.plan ∧ j = k) ∧
      ∀ j, c.install = some j → j = k) ?_ ?_ hx hx hc
  · intro _ i c hc
    simp [initial, run] at hc
  · intro happened x ho hs h hx i c' hc'
    have hxb : ∀ y ∈ happened, y ≠ .cancel := fun y hy => hx y (List.mem_append_left _ hy)
    -- a controller that was there before is not launched now
    have hstays : ∀ {c : Controller} {plan : Plan} {j : Ticket},
        (initial.run happened).controllers[i]? = some c →
        (LaunchedBy (happened ++ [x]) i plan j ↔ LaunchedBy happened i plan j) := by
      intro c plan j hc
      rw [launchedBy_snoc, or_iff_left]
      rintro ⟨_, _, _, _, _, hlen⟩
      have hlt := (List.getElem?_eq_some_iff.mp hc).1
      omega
    cases ho.becomes hs hc' with
    | rests hc hr =>
        obtain ⟨k, hk, hinstall⟩ := h hxb hc
        refine ⟨k, fun {plan j} => ?_, fun j hj => hinstall j (hr.install ▸ hj)⟩
        rw [hstays hc, hk, hr.plan]
    | takes hx hc hcan hc' =>
        obtain ⟨k, hk, hinstall⟩ := h hxb hc
        refine ⟨k, fun {plan j} => ?_, fun j hj => hinstall j ?_⟩
        · rw [hstays hc, hk, hc', plan_take hcan]
        · rw [hc'] at hj
          have hj := Turn.final_install hj
          rw [(Controller.replies_take hcan i (initial.run happened).world).install] at hj
          split at hj
          · cases hj
          · exact hj
    | launched plan ticket messages hx hlen hc' =>
        subst hx
        obtain ⟨plan, ticket, rest, messages, hinbox, hst, hfree, hlen, hlast⟩ :=
          launched_receive (List.getElem?_eq_some_iff.mp hc').1 hlen
            (run_snoc initial happened _)
        obtain rfl : c' = _ := Option.some.inj (hc'.symm.trans hlast)
        rw [Controller.told_plan, Controller.told_install]
        refine ⟨ticket, fun {plan' j} => ?_, fun j hj => (Option.some.inj hj).symm⟩
        rw [launchedBy_snoc]
        constructor
        · rintro (hold | ⟨_, _, hi, _⟩)
          · have := hold.lt hxb
            omega
          · obtain ⟨rfl, rfl⟩ := Request.install.inj (List.cons.inj (hinbox.symm.trans hi)).1
            exact ⟨rfl, rfl⟩
        · rintro ⟨rfl, rfl⟩
          exact .inr ⟨rfl, rest, hinbox, hst, hfree, hlen⟩

/-! ## What is still promised -/

/-- Nobody was promised the end of a container that was not asked to close. -/
def Undisturbed (s : System) : Prop := s.IsClosing ∨ s.container.closing = []

theorem closing_process (s : System) (r : Request) :
    (s.process r).container.closing = s.container.closing ∨
      ((∃ k, r = .close k) ∧ s.container.stage = .opened) := by
  obtain ⟨_, _, hcont⟩ := process_container s r
  have hafter : (s.process r).container.closing = closingAfter s.container r := by rw [hcont]
  rw [hafter]
  cases r with
  | close ticket =>
      by_cases hst : s.container.stage = .opened
      · exact .inr ⟨⟨ticket, rfl⟩, hst⟩
      · exact .inl (if_neg hst)
  | _ => exact .inl rfl

theorem Undisturbed.step {x : Stimulus} (h : s.Undisturbed) (ho : s.Orderly) (hs : Step s x s') :
    s'.Undisturbed := by
  rcases h with h | h
  · exact .inl (h.step ho hs)
  · rcases container_cases hs with ⟨out, hc⟩ | ⟨_, hc⟩ | ⟨r, rest, hserving, hi, rfl⟩ | ⟨_, hc⟩
    · exact .inr (by rw [hc]; exact (sent_held s.container out none).trans h)
    · exact .inr (by rw [hc]; exact h)
    · rcases closing_process { s with container := { s.container with inbox := rest } } r with
        hsame | ⟨⟨k, rfl⟩, hst⟩
      · obtain ⟨stage, inbox, hc⟩ := ho.receive_container hserving hi
        exact .inr (by rw [hc]; exact hsame.trans h)
      · exact .inl (isClosing_receive ho hst hi)
    · exact .inr (by rw [hc])

theorem undisturbed_run {happened : List Stimulus} (hx : ∀ x ∈ happened, x ≠ .cancel) :
    (initial.run happened).Undisturbed :=
  run_induction (P := fun happened => (initial.run happened).Undisturbed) (.inr rfl)
    (fun ho hs h => h.step ho hs) hx

/-- Whoever is not answered yet installed a service that waits. -/
theorem Settled.hosted_of_install {i : Nat} {c : Controller} (hs : s.Settled) (h : s.Orderly)
    (howes : c.Owes) (hc : s.controllers[i]? = some c) (hk : c.install = some k) :
    ∃ (name : Name) (n : Node), s.container.graph.nodes[name]? = some n ∧ n.inbox = i ∧
      n.state = .waiting := by
  have hsteady := h.steady hs
  have hphase : c.state.phase ≤ 1 := howes.mp (by simp [hk])
  by_cases hhost : ∃ name, s.container.graph.Hosts name i
  · obtain ⟨name, n, hn, rfl⟩ := hhost
    obtain ⟨c', hc', _, hsame, _, _, hrests⟩ := hsteady.installed hn
    obtain rfl := Option.some.inj (hc.symm.trans hc')
    refine ⟨name, n, hn, rfl, hsame ▸ ?_⟩
    rcases hrests with ⟨hst, _⟩ | ⟨hst, _⟩
    · simp [hst, State.phase] at hphase
    · exact hst
  · push Not at hhost
    simp [(hsteady.ended hc hhost).1, State.phase] at hphase

/-- The container took a request to remove a service and found this controller's installed. -/
def RemovalOf (happened : List Stimulus) (name : Name) (i : Nat) (k : Ticket) : Prop :=
  ∃ (before after : List Stimulus) (rest : List Request),
    happened = before ++ .move .receive :: after ∧
    (initial.run before).container.inbox = .remove name k :: rest ∧
    (initial.run before).container.graph.Hosts name i

/-- A promise was made to the installer of a service that waits. -/
def InstallWaits (happened : List Stimulus) (k : Ticket) : Prop :=
  ∃ (name : Name) (n : Node) (plan : Plan),
    (initial.run happened).container.graph.nodes[name]? = some n ∧ n.state = .waiting ∧
    LaunchedBy happened n.inbox plan k

theorem World.outcome?_eq_none {w : World} (h : w.status k = some none) : w.outcome? k = none := by
  cases ho : w.outcome? k with
  | none => rfl
  | some o =>
      rw [World.outcome?_eq_some, h] at ho
      cases ho

theorem Owned.mem_hands (h : s.Owned) : k ∈ s.hands ↔ s.world.status k = some none := by
  rw [← List.count_pos_iff, h.once k]
  split <;> simp_all

theorem RemovalOf.bound {happened : List Stimulus} {name : Name} (h : RemovalOf happened name i k)
    (hx : ∀ x ∈ happened, x ≠ .cancel) :
    (initial.run happened).Bound name i k := by
  obtain ⟨before, after, rest, rfl, hi, hh⟩ := h
  have hxb : ∀ x ∈ before, x ≠ .cancel := fun x hxb => hx x (List.mem_append_left _ hxb)
  have hxa : ∀ x ∈ after, x ≠ .cancel := fun x hxa =>
    hx x (List.mem_append_right _ (List.mem_cons_of_mem _ hxa))
  have ho := orderly_run hxb
  have hs : (initial.run before).container.isServing = true := by
    by_contra hno
    simp [(ho.unserved (by simpa using hno)).2] at hi
  have hstep : Step (initial.run before) (.move .receive) _ := .received _ _ hs hi
  rw [run_receive hs hi]
  exact (Bound.of_receive ho hs hi hh).run (ho.step hstep) ((ledger_run hxb).step ho hstep).1 hxa

end System

end ServiceHost
