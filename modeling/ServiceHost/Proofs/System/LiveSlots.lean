import ServiceHost.Proofs.System.DependencyOrder
import ServiceHost.Proofs.System.Injections
import ServiceHost.Proofs.System.Invocations

/-! # What a service finds in its slots

Whenever a callback of a service is invoked, each slot the service has to itself holds what the
installer of the dependency was given, and it holds that until the service is removed. -/

namespace ServiceHost

/-- The value an installer is given, if it is told that the service has started. -/
def Answer.value? : Answer → Option Value
  | .done => some .unit
  | .value v => some v
  | _ => none

theorem Plan.Ready.startAnswer_value? {p : Plan} {cells : Cells} (h : p.Ready cells) :
    (Turn.startAnswer p).value? = some p.value := by
  unfold Turn.startAnswer
  split
  · next hc => rw [(h.unit hc).1, Answer.value?]
  · rfl

/-- Which labels a plan binds to a dependency. -/
theorem Plan.mem_slotsOf {p : Plan} {d : Name} {l : Label} :
    l ∈ p.slotsOf d ↔ ∃ labels, (d, labels) ∈ p.slots.toList ∧ l ∈ labels := by
  simp only [slotsOf, Std.ExtTreeMap.mem_toList_iff_getElem?_eq_some]
  cases p.slots[d]? <;> simp

namespace System

variable {s s' : System} {x : Stimulus} {happened before after : List Stimulus} {i y : Nat}
  {c b : Controller} {d : Name} {l : Label} {v : Value} {cells : Cells} {phase : Phase}

/-! ## What installers were given -/

/-- The installer of a started service was told so, and given its value. -/
theorem paid_run (hx : ∀ x ∈ happened, x ≠ .cancel)
    (hc : (initial.run happened).controllers[i]? = some c)
    (hs : c.state = .started ∨ c.state = .draining) :
    ∃ k, LaunchedBy happened i c.plan k ∧
      (initial.run happened).world.status k = some (some (.ok (Turn.startAnswer c.plan))) := by
  refine run_induction (P := fun happened => (∀ x ∈ happened, x ≠ .cancel) →
    ∀ {i : Nat} {c : Controller}, (initial.run happened).controllers[i]? = some c →
      c.state = .started ∨ c.state = .draining → ∃ k, LaunchedBy happened i c.plan k ∧
        (initial.run happened).world.status k = some (some (.ok (Turn.startAnswer c.plan))))
    ?_ ?_ hx hx hc hs
  · intro _ i c hc
    simp [initial, run] at hc
  · intro happened x ho hs h hx i c' hc' hstate
    have hxb : ∀ y ∈ happened, y ≠ .cancel := fun y hy => hx y (List.mem_append_left _ hy)
    rcases hs.advances hc' with ⟨c, hc, ha⟩ | ⟨_, hw⟩
    · rw [(ho.handled hs (run_snoc ..).symm).plan hc hc']
      by_cases hold : c.state = .started ∨ c.state = .draining
      · obtain ⟨k, hk, hpaid⟩ := h hxb hc hold
        exact ⟨k, launchedBy_snoc.mpr (.inl hk),
          ((ledger_run hxb).step ho hs).2.settled hpaid⟩
      · -- it has just come to this state, so its installer is told now
        obtain ⟨heffects, hwas, his⟩ : (initial.run happened).effects x i = [.completeStart] ∧
            c.state.phase ≤ 1 ∧ ¬c'.state.phase ≤ 1 := by
          generalize c'.state = next at ha hstate
          generalize (initial.run happened).effects x i = effects at ha
          generalize c.state = state at ha hold
          cases ha with
          | stays => exact absurd hstate hold
          | moves hm => cases hm <;> simp_all [State.phase]
        obtain ⟨k, hlaunched, hinstall⟩ := launchedBy_run hxb hc
        have howes := owes_run hxb hc
        obtain ⟨j, hj⟩ := Option.isSome_iff_exists.mp (howes.mpr hwas)
        obtain rfl := hinstall j hj
        have htold := ho.told_installer (owned_run hxb) howes (run_snoc initial happened x ▸ hs) hc hj
          (run_snoc initial happened x ▸ hc')
        refine ⟨j, launchedBy_snoc.mpr (.inl (hlaunched.mpr ⟨rfl, rfl⟩)), ?_⟩
        rcases htold with hkept | ⟨o, rfl, hcan, ha, hsettled⟩
        · exact absurd ((owes_run hx hc').mp (by simp [hkept])) his
        · rw [run_snoc, hsettled]
          rw [effects_take hc hcan] at heffects
          unfold Controller.answer? at ha
          split at ha
          · rw [heffects] at ha
            simpa [Effect.answer?] using ha.symm
          · cases ha
    · simp [hw] at hstate

/-- The installer of the service that is installed under a name was given a value. -/
def Delivered (happened : List Stimulus) (d : Name) (v : Value) : Prop :=
  ∃ y plan k answer, (initial.run happened).container.graph.Hosts d y ∧
    LaunchedBy happened y plan k ∧
    (initial.run happened).world.outcome? k = some (.ok answer) ∧ answer.value? = some v

theorem delivered_run (hx : ∀ x ∈ happened, x ≠ .cancel)
    (hb : (initial.run happened).controllers[y]? = some b)
    (hs : b.state = .started ∨ b.state = .draining)
    (hh : (initial.run happened).container.graph.Hosts d y) :
    Delivered happened d b.plan.value := by
  obtain ⟨k, hk, hpaid⟩ := paid_run hx hb hs
  exact ⟨y, b.plan, k, _, hh, hk, World.outcome?_eq_some.mpr hpaid,
    ((ready_run hx).plans hb).startAnswer_value?⟩

/-! ## What services were given -/

/-- In the course of a run, a service was given what the one it depends on was installed to expose. -/
def Handed (happened : List Stimulus) (i : Nat) (p : Name × Value) : Prop :=
  ∃ y plan k, Supplied happened i p.1 y ∧ LaunchedBy happened y plan k ∧ plan.value = p.2

theorem LaunchedBy.append {plan : Plan} {k : Ticket} (h : LaunchedBy before i plan k)
    (after : List Stimulus) : LaunchedBy (before ++ after) i plan k := by
  obtain ⟨b, a, rest, rfl, hl⟩ := h
  exact ⟨b, a ++ after, rest, by simp, hl⟩

/-- Whoever is there stays there, with the plan it was launched with. -/
theorem plan_append (hx : ∀ x ∈ before ++ after, x ≠ .cancel)
    (hc : (initial.run before).controllers[i]? = some c) :
    ∃ c', (initial.run (before ++ after)).controllers[i]? = some c' ∧ c'.plan = c.plan := by
  obtain ⟨k, hk, -⟩ := launchedBy_run (fun y hy => hx y (List.mem_append_left _ hy)) hc
  have hl := (hk.mpr ⟨rfl, rfl⟩).append after
  have hc' := List.getElem?_eq_getElem (hl.lt hx)
  obtain ⟨j, hj, -⟩ := launchedBy_run hx hc'
  exact ⟨_, hc', (hj.mp hl).1.symm⟩

theorem Handed.append {p : Name × Value} (h : Handed before i p) (after : List Stimulus) :
    Handed (before ++ after) i p := by
  obtain ⟨y, plan, k, ⟨b, x, a, rfl, hs⟩, hl, hv⟩ := h
  exact ⟨y, plan, k, ⟨b, x, a ++ after, by simp, hs⟩, hl.append after, hv⟩

/-- Whoever was started has the very services that handed it its values. -/
theorem Handed.host (h : Handed happened i (d, v)) (hx : ∀ x ∈ happened, x ≠ .cancel)
    (hrun : Running happened i c) (hd : d ∈ c.plan.dependencies) : ∃ (y : Nat) (b : Controller),
      (initial.run happened).container.graph.Hosts d y ∧
      (initial.run happened).controllers[y]? = some b ∧
      (b.state = .started ∨ b.state = .draining) ∧ b.plan.value = v := by
  obtain ⟨y, plan, k, hs, hl, hv⟩ := h
  obtain ⟨z, b, hh, hb, huse, hiff⟩ := hrun.kept hx hd
  obtain rfl := (hiff y).mp hs
  obtain ⟨j, hj, _⟩ := launchedBy_run hx hb
  exact ⟨y, b, hh, hb, huse, (hj.mp hl).1 ▸ hv⟩

theorem Handed.eq {v' : Value} (h : Handed happened i (d, v)) (h' : Handed happened i (d, v'))
    (hx : ∀ x ∈ happened, x ≠ .cancel) (hrun : Running happened i c)
    (hd : d ∈ c.plan.dependencies) : v = v' := by
  obtain ⟨y, b, ⟨n, hn, hi⟩, hb, _, rfl⟩ := h.host hx hrun hd
  obtain ⟨y', b', ⟨n', hn', hi'⟩, hb', _, rfl⟩ := h'.host hx hrun hd
  obtain rfl := Option.some.inj (hn.symm.trans hn')
  rw [← hi, hi'] at hb
  rw [Option.some.inj (hb.symm.trans hb')]

/-- Whatever is on its way to a service are the values of all it depends on, handed to it. -/
structure Offered (happened : List Stimulus) : Prop where
  covered : ∀ {i : Nat} {c : Controller} {values : List (Name × Value)},
    (initial.run happened).controllers[i]? = some c →
    0 < (initial.run happened).offers i values →
    ∀ e ∈ c.plan.dependencies, ∃ v, (e, v) ∈ values
  handed : ∀ {i : Nat} {values : List (Name × Value)},
    0 < (initial.run happened).offers i values → ∀ p ∈ values, Handed happened i p

theorem offered_run (hx : ∀ x ∈ happened, x ≠ .cancel) : Offered happened := by
  refine run_induction (P := fun happened => (∀ x ∈ happened, x ≠ .cancel) → Offered happened)
    ?_ ?_ hx hx
  · exact fun _ => ⟨by simp [initial, run], by simp [initial, run, System.offers]⟩
  · intro happened x ho hs h hx
    have hxb : ∀ y ∈ happened, y ≠ .cancel := fun y hy => hx y (List.mem_append_left _ hy)
    have hsup := ho.supplying hs
    refine ⟨fun {i c' values} hc' hpos => ?_, fun {i values} hpos p hp => ?_⟩
    · rcases hsup.offered_or hpos with hold | ⟨m, n, hn, rfl, havailable⟩
      · rcases hs.advances hc' with ⟨c, hc, _⟩ | ⟨hlen, _⟩
        · exact (ho.handled hs (run_snoc ..).symm).plan hc hc' ▸ (h hxb).covered hc hold
        · simp [System.offers, List.getElem?_eq_none hlen] at hold
      · obtain ⟨c, hc, hl⟩ := (ho.step hs).consistent.linked hn
        obtain rfl := Option.some.inj (hc'.symm.trans hc)
        intro e he
        obtain ⟨v, hv, _⟩ := Graph.exists_of_mem_available? havailable (hl.dependencies ▸ he)
        exact ⟨v, hv⟩
    · rcases Nat.eq_zero_or_pos ((initial.run happened).offers i values) with hzero | hold
      · obtain ⟨d, v⟩ := p
        have hoff := hzero ▸ hpos
        obtain ⟨_, _, _, _, _, havailable, _⟩ := hsup.offered hoff
        obtain ⟨_, hexp⟩ := Graph.exposed?_of_mem_available? havailable hp
        obtain ⟨k, hk, hvalue⟩ := Option.bind_eq_some_iff.mp hexp
        split at hvalue
        · cases hvalue
        · obtain ⟨b, hb, hl⟩ := (ho.step hs).consistent.linked hk
          obtain ⟨j, hj, _⟩ := launchedBy_run hx hb
          refine ⟨k.inbox, b.plan, j, supplied_concat.mpr (.inr ⟨values, v, ?_, hp, ?_, ?_⟩),
            hj.mpr ⟨rfl, rfl⟩, (hl.value v hvalue).symm⟩
          · exact run_snoc initial happened x ▸ hoff
          · exact run_snoc initial happened x ▸ ⟨k, hk, rfl⟩
          · exact run_snoc initial happened x ▸ hexp
      · exact ((h hxb).handed hold p hp).append [x]

/-! ## Slots of its own -/

/-- A service has its slots to itself: it shares none with another that is installed, binds none of
them to two dependencies, and none of them is a roster. -/
structure Sole (s : System) (i : Nat) (c : Controller) : Prop where
  alone : ∀ {j : Nat} {b : Controller} {l : Label}, s.controllers[j]? = some b →
    b.state ≠ .removed → c.plan.Binds l → b.plan.Binds l → j = i
  once : ∀ {d e : Name} {l : Label}, l ∈ c.plan.slotsOf d → l ∈ c.plan.slotsOf e → d = e
  slots : ∀ {l : Label}, c.plan.Binds l → s.world.cells.roster? l = none

/-- In the course of a run, a service had its slots to itself for as long as it was installed. -/
def OwnsSlots (happened : List Stimulus) (i : Nat) : Prop :=
  ∀ ⦃before after : List Stimulus⦄ ⦃c : Controller⦄, happened = before ++ after →
    (initial.run before).controllers[i]? = some c → c.state ≠ .removed →
    (initial.run before).Sole i c

theorem OwnsSlots.of_append (h : OwnsSlots (before ++ after) i) : OwnsSlots before i :=
  fun _ _ _ he hc hr => h (by rw [he, List.append_assoc]) hc hr

theorem OwnsSlots.sole (h : OwnsSlots happened i)
    (hc : (initial.run happened).controllers[i]? = some c) (hr : c.state ≠ .removed) :
    (initial.run happened).Sole i c :=
  h (List.append_nil _).symm hc hr

theorem Handled.roster?_eq_none (h : s.Handled x s') (hno : s'.world.cells.roster? l = none) :
    s.world.cells.roster? l = none := by
  cases h with
  | takes hx hc hcan hcontrollers hfinal hplan ha hh hgrows =>
      exact hh.frame.roster?_eq_none (hgrows.roster?_eq_none hno)
  | rests hx hgrows hkept h => exact hgrows.roster?_eq_none hno

theorem roster?_of_prefix (hx : ∀ x ∈ happened, x ≠ .cancel) (hp : before <+: happened)
    (hno : (initial.run happened).world.cells.roster? l = none) :
    (initial.run before).world.cells.roster? l = none := by
  refine run_induction (P := fun happened => before <+: happened →
    (initial.run happened).world.cells.roster? l = none →
    (initial.run before).world.cells.roster? l = none) ?_ ?_ hx hp hno
  · intro hp hno
    rwa [List.prefix_nil.mp hp]
  · intro happened x ho hs h hp hno
    rcases List.prefix_concat_iff.mp hp with rfl | hp
    · exact hno
    · exact h hp ((ho.handled hs (run_snoc ..).symm).roster?_eq_none hno)

/-- Slots that nobody else was ever bound to are a service's own. -/
theorem OwnsSlots.of_alone (hx : ∀ x ∈ happened, x ≠ .cancel)
    (hc : (initial.run happened).controllers[i]? = some c)
    (halone : ∀ {j : Nat} {b : Controller} {l : Label},
      (initial.run happened).controllers[j]? = some b → c.plan.Binds l → b.plan.Binds l → j = i)
    (honce : ∀ {d e : Name} {l : Label}, l ∈ c.plan.slotsOf d → l ∈ c.plan.slotsOf e → d = e)
    (hslots : ∀ {l : Label}, c.plan.Binds l → (initial.run happened).world.cells.roster? l = none) :
    OwnsSlots happened i := by
  rintro before after c₀ rfl hc₀ -
  obtain ⟨c', hc', hplan⟩ := plan_append hx hc₀
  obtain rfl := Option.some.inj (hc.symm.trans hc')
  refine ⟨fun hb _ hl hl' => ?_, hplan ▸ honce, fun hl => ?_⟩
  · obtain ⟨b', hb', hplan'⟩ := plan_append hx hb
    exact halone hb' (hplan ▸ hl) (hplan' ▸ hl')
  · exact roster?_of_prefix hx ⟨after, rfl⟩ (hslots (hplan ▸ hl))

theorem Ready.slot (h : s.Ready) (hc : s.controllers[i]? = some c) (hsole : s.Sole i c)
    (hl : c.plan.Binds l) : ∃ slot, s.world.cells.slot? l = some slot := by
  have hmem := (h.plans hc).bound hl
  rw [Std.ExtTreeMap.mem_iff_isSome_getElem?] at hmem
  obtain ⟨cell, hcell⟩ := Option.isSome_iff_exists.mp hmem
  cases cell with
  | slot slot => exact ⟨slot, by simp [Cells.slot?, hcell]⟩
  | roster roster => simpa [Cells.roster?, hcell] using hsole.slots hl

/-- Once `start` is invoked, every slot holds what its dependency handed over. -/
theorem Invokes.filled (hx : ∀ x ∈ happened, x ≠ .cancel)
    (h : (initial.run happened).Invokes x i .start cells)
    (hc : (initial.run happened).controllers[i]? = some c)
    (hsole : (initial.run happened).Sole i c) (hl : l ∈ c.plan.slotsOf d) :
    ∃ v, cells.content? l = some (d, v) ∧ Handed happened i (d, v) := by
  cases h with
  | @start c' values rest cells hx' hc' hcan hw hi hok =>
      obtain rfl := Option.some.inj (hc.symm.trans hc')
      have hready := ready_run hx
      have hpos : 0 < (initial.run happened).offers i values := offers_pos hc (by simp [hi])
      obtain ⟨v, hv⟩ := (offered_run hx).covered hc hpos d ((hready.plans hc).needed hl)
      obtain ⟨slot, hslot⟩ := hready.slot hc hsole ⟨d, hl⟩
      have htype := (Turn.frame_inject c.plan values (initial.run happened).world.cells).type l
      rw [hok, hslot] at htype
      obtain ⟨slot', hslot', -⟩ := Option.map_eq_some_iff.mp htype
      rcases Turn.slot?_inject (congrArg Prod.snd hok) (hok ▸ hslot') with
        ⟨⟨e, v'⟩, hp, hlp, hcontent⟩ | ⟨hno, -⟩
      · obtain rfl := hsole.once hlp hl
        exact ⟨v', by simp [Cells.content?, hslot', hcontent], (offered_run hx).handed hpos _ hp⟩
      · exact absurd hl (hno _ hv)

/-- The step in which `start` is invoked leaves the cells as `start` finds them, apart from those that
come into being. -/
theorem Invokes.grows (h : s.Invokes x i .start cells) (hh : s.Handled x s') :
    cells.Grows s'.world.cells := by
  have hinjects := h.injects
  cases h with
  | @start c values rest cells hx hc hcan hw hi hok =>
      cases hh with
      | rests hx hgrows hkept h => simp [hx] at hinjects
      | @takes j b b' cells' hx' hb hcan' hcontrollers hfinal hplan ha hh hgrows =>
          obtain rfl : i = j := by simpa [hx] using hx'
          obtain rfl := Option.some.inj (hc.symm.trans hb)
          generalize b'.resolved = resolved at hh
          cases hh with
          | spares hs hr =>
              simp [Controller.effects, hi, hw, State.effects, transition, Event.signal] at hs
          | updates hi' => simp [hi] at hi'
          | releases hi' => simp [hi] at hi'
          | fills hi' =>
              rw [hi] at hi'
              cases hi'
              rwa [hok] at hgrows

/-- Whoever handles a message keeps what is in the slots it has to itself, unless it was not started
yet or is removed by that. -/
theorem Handled.content? {c' : Controller} (h : s.Handled x s') (hc : s.controllers[i]? = some c)
    (hc' : s'.controllers[i]? = some c') (hsole : s.Sole i c) (hl : c.plan.Binds l)
    (hw : c.state ≠ .waiting) (hr : c'.state ≠ .removed) :
    s'.world.cells.content? l = s.world.cells.content? l := by
  cases h with
  | rests hx hgrows hkept h => exact hgrows.content? l
  | @takes j b b' cells hx hb hcan hcontrollers hfinal hplan ha hh hgrows =>
      rw [hgrows.content?]
      by_cases hji : j = i
      · subst hji
        obtain rfl := Option.some.inj (hc.symm.trans hb)
        rw [hcontrollers, List.getElem?_set_self (List.getElem?_eq_some_iff.mp hb).1] at hc'
        obtain rfl := Option.some.inj hc'
        generalize b'.resolved = resolved at hh
        cases hh with
        | spares hs hr => rfl
        | updates hi hu => exact hu.slots.content? id
        | fills hi hw' => exact absurd hw' hw
        | releases hi hs =>
            refine absurd (ha.of_release ?_) hr
            simp [Controller.effects, hi, hs, State.effects, transition, Event.signal]
      · refine hh.content? fun hbinds => ?_
        by_contra hrb
        exact hji (hsole.alone hb hrb hl hbinds)

/-- From the invocation of `start` on, every slot holds what its dependency handed over. -/
theorem live_run (hx : ∀ x ∈ happened, x ≠ .cancel)
    (hc : (initial.run happened).controllers[i]? = some c) (hinvoked : StartInvoked happened i)
    (hr : c.state ≠ .removed) (hown : OwnsSlots happened i) (hl : l ∈ c.plan.slotsOf d) :
    ∃ v, (initial.run happened).world.cells.content? l = some (d, v) ∧
      Handed happened i (d, v) := by
  refine run_induction (P := fun happened => (∀ x ∈ happened, x ≠ .cancel) →
    ∀ {c : Controller}, (initial.run happened).controllers[i]? = some c →
      StartInvoked happened i → c.state ≠ .removed → OwnsSlots happened i →
      l ∈ c.plan.slotsOf d → ∃ v, (initial.run happened).world.cells.content? l = some (d, v) ∧
        Handed happened i (d, v)) ?_ ?_ hx hx hc hinvoked hr hown hl
  · intro _ c hc
    simp [initial, run] at hc
  · intro happened x ho hs h hx c' hc' hinvoked hr hown hl
    have hxb : ∀ y ∈ happened, y ≠ .cancel := fun y hy => hx y (List.mem_append_left _ hy)
    have hhandled := ho.handled hs (run_snoc ..).symm
    have hownb : OwnsSlots happened i := hown.of_append
    -- whoever was there before is the service it is now, and was not removed
    have hbefore : ∀ {c : Controller}, (initial.run happened).controllers[i]? = some c →
        c'.plan = c.plan ∧ c.state ≠ .removed := by
      intro c hc
      refine ⟨hhandled.plan hc hc', fun hremoved => hr ?_⟩
      rcases hs.advances hc' with ⟨b, hb, ha⟩ | ⟨hlen, _⟩
      · obtain rfl := Option.some.inj (hc.symm.trans hb)
        exact ha.of_removed hremoved
      · simp [List.getElem?_eq_none hlen] at hc
    rcases startInvoked_snoc.mp hinvoked with hold | ⟨cells, hnow⟩
    · have hmem := hold.mem_trace
      obtain ⟨c, hc⟩ := exists_of_mem_trace hxb hmem
      obtain ⟨hplan, hrb⟩ := hbefore hc
      rw [hplan] at hl
      obtain ⟨v, hv, hhanded⟩ := h hxb hc hold hrb hownb hl
      refine ⟨v, ?_, hhanded.append [x]⟩
      rw [← hv]
      exact hhandled.content? hc hc' (hownb.sole hc hrb) ⟨d, hl⟩
        (fun hw => ((hasRun hxb).ran hc).unstarted hw hmem) hr
    · obtain ⟨c, hx', hc, hcan, he, -⟩ := take_of_effects hnow.injects
      obtain ⟨hplan, hrb⟩ := hbefore hc
      rw [hplan] at hl
      obtain ⟨v, hv, hhanded⟩ := hnow.filled hxb hc (hownb.sole hc hrb) hl
      exact ⟨v, ((hnow.grows hhandled).content? l).trans hv, hhanded.append [x]⟩

theorem Invokes.present (h : s.Invokes x i phase cells) (hc : s.controllers[i]? = some c) :
    c.state ≠ .removed := by
  cases h with
  | start hx hc' hcan hw =>
      obtain rfl := Option.some.inj (hc.symm.trans hc')
      simp [hw]
  | stop he =>
      obtain ⟨b, -, hb, hcan, he, -⟩ := take_of_effects he
      obtain rfl := Option.some.inj (hc.symm.trans hb)
      intro hr
      rcases Controller.take_cases hcan i s.world with ⟨_, _, _, _, hnone, _⟩ | ⟨_, _, _, _, _, hm, _⟩
      · simp [hnone] at he
      · have hnext := (hr ▸ hm).removed
        rw [hm.of_invokeStop he] at hnext
        cases hnext

theorem Invokes.holds (h : (initial.run happened).Invokes x i phase cells)
    (hx : ∀ x ∈ happened, x ≠ .cancel) (hc : (initial.run happened).controllers[i]? = some c)
    (hown : OwnsSlots happened i) (hl : l ∈ c.plan.slotsOf d) :
    ∃ v, cells.content? l = some (d, v) ∧ Handed happened i (d, v) := by
  have hr := h.present hc
  cases phase with
  | start => exact h.filled hx hc (hown.sole hc hr) hl
  | stop =>
      have hinvoked := h.startInvoked hx
      cases h with
      | stop he => exact live_run hx hc hinvoked hr hown hl

/-- What a callback finds in a slot was given to the installer of the dependency. -/
theorem Invokes.delivered (h : (initial.run happened).Invokes x i phase cells)
    (hx : ∀ x ∈ happened, x ≠ .cancel) (hc : (initial.run happened).controllers[i]? = some c)
    (hd : d ∈ c.plan.dependencies) (hhanded : Handed happened i (d, v)) :
    Delivered happened d v := by
  cases phase with
  | stop =>
      obtain ⟨y, b, hh, hb, huse, rfl⟩ :=
        hhanded.host hx ⟨hc, (h.startInvoked hx).mem_trace, h.present hc⟩ hd
      exact delivered_run hx hb huse hh
  | start =>
      -- the dependencies are in use once the step is made, and it is not they that make it
      obtain ⟨c', hx', hc', hcan, he, happly⟩ := take_of_effects h.injects
      obtain rfl := Option.some.inj (hc.symm.trans hc')
      have hi := (List.getElem?_eq_some_iff.mp hc).1
      have ha := applies_applyTurn (t := c.take i (initial.run happened).world) hi
      rw [← happly, ← run_snoc] at ha
      have hxs : ∀ y ∈ happened ++ [x], y ≠ .cancel :=
        List.forall_mem_append.mpr ⟨hx, by simp [hx']⟩
      have hself : (initial.run (happened ++ [x])).controllers[i]? =
          some ((c.take i (initial.run happened).world).final
            (initial.run happened).tasks.length) := by
        rw [ha.controllers, List.getElem?_set_self hi]
      have hstart := ((advances_take hcan i (initial.run happened).tasks.length
        (initial.run happened).world).of_start ((effects_take hc hcan) ▸ hx' ▸ h.injects)).2
      have hinvoked := (startInvoked_snoc.mpr (.inr ⟨cells, h⟩)).mem_trace
      obtain ⟨y, b, hh, hb, huse, rfl⟩ := (hhanded.append [x]).host hxs
        ⟨hself, hinvoked, by rw [hstart]; simp⟩ (by rwa [plan_take hcan])
      have hy : i ≠ y := by
        rintro rfl
        obtain rfl := Option.some.inj (hself.symm.trans hb)
        rw [hstart] at huse
        simp at huse
      rw [ha.controllers, List.getElem?_set_ne hy] at hb
      rw [ha.container, sent_graph] at hh
      exact delivered_run hx hb huse hh

/-! ## The slots of a service -/

/-- What is in the slots of the services of a run. -/
structure KeepsSlots (happened : List Stimulus) : Prop where
  /-- A slot is empty as long as whoever binds it waits, or is removed. -/
  empty : ∀ {l : Label}, (∀ {i : Nat} {c : Controller},
      (initial.run happened).controllers[i]? = some c → c.plan.Binds l →
      c.state = .waiting ∨ c.state = .removed) →
    (initial.run happened).world.cells.content? l = none
  /-- Whenever a callback is invoked, a slot bound to a dependency holds its name, and the value its
  installer was given. -/
  invoked : ∀ {x : Stimulus} {i : Nat} {c : Controller} {phase : Phase} {cells : Cells} {d : Name}
      {l : Label}, (initial.run happened).Invokes x i phase cells →
    (initial.run happened).controllers[i]? = some c → OwnsSlots happened i →
    l ∈ c.plan.slotsOf d → ∃ v, cells.content? l = some (d, v) ∧ Delivered happened d v
  /-- It holds them until the service is removed. -/
  kept : ∀ {before after : List Stimulus} {x : Stimulus} {i : Nat} {c : Controller} {phase : Phase}
      {cells : Cells} {d : Name} {l : Label}, happened = before ++ x :: after →
    (initial.run before).Invokes x i phase cells →
    (initial.run happened).controllers[i]? = some c → c.state ≠ .removed → OwnsSlots happened i →
    l ∈ c.plan.slotsOf d → (initial.run happened).world.cells.content? l = cells.content? l

theorem keepsSlots_run (hx : ∀ x ∈ happened, x ≠ .cancel) : KeepsSlots happened where
  empty := (sourced_run hx).empty
  invoked := by
    intro x i c phase cells d l h hc hown hl
    obtain ⟨v, hv, hhanded⟩ := h.holds hx hc hown hl
    exact ⟨v, hv, h.delivered hx hc (((ready_run hx).plans hc).needed hl) hhanded⟩
  kept := by
    intro before after x i c phase cells d l he h hc hr hown hl
    subst he
    have hxb : ∀ y ∈ before, y ≠ .cancel := fun y hy => hx y (List.mem_append_left _ hy)
    obtain ⟨b, hb⟩ := h.controller
    obtain ⟨c', hc', hplan⟩ := plan_append hx hb
    obtain rfl := Option.some.inj (hc.symm.trans hc')
    obtain ⟨v, hv, hhanded⟩ := h.holds hxb hb hown.of_append (hplan ▸ hl)
    have hinvoked : StartInvoked (before ++ x :: after) i := by
      cases phase with
      | start => exact ⟨before, x, after, cells, rfl, h⟩
      | stop => exact (h.startInvoked hxb).append _
    obtain ⟨v', hv', hhanded'⟩ := live_run hx hc hinvoked hr hown hl
    have hd := ((ready_run hx).plans hc).needed hl
    obtain rfl := (hhanded.append _).eq hhanded' hx ⟨hc, hinvoked.mem_trace, hr⟩ hd
    exact hv'.trans hv.symm

/-- A service and one that has a slot for its value are installed and started. -/
def slotStarts : List Stimulus :=
  [.request (.request 0) .start,
    .request (.request 1) (.install { plainService "base" [] with value := .u64 7 }),
    .request (.request 2)
      (.install { plainService "top" [] with slots := [⟨"base", .u64, "l"⟩] })] ++ turns 6 2

theorem ownsSlots_slotStarts : OwnsSlots slotStarts 1 := by
  have hx : ∀ x ∈ slotStarts, x ≠ .cancel :=
    List.forall_mem_append.mpr ⟨by simp, not_cancel_turns 6 2⟩
  have hslots : (initial.run slotStarts).controllers.map (·.plan.slots.toList) =
      [[], [("base", ["l"])]] := by decide +kernel
  have hroster : (initial.run slotStarts).world.cells.roster? "l" = none := by decide +kernel
  have hplan : ∀ {j : Nat} {b : Controller} {d : Name} {l : Label},
      (initial.run slotStarts).controllers[j]? = some b → l ∈ b.plan.slotsOf d →
      j = 1 ∧ d = "base" ∧ l = "l" := by
    intro j b d l hb hl
    obtain ⟨labels, hlabels, hl⟩ := Plan.mem_slotsOf.mp hl
    have hmap := congrArg (·[j]?) hslots
    simp only [List.getElem?_map, hb, Option.map_some] at hmap
    rcases j with _ | _ | j
    · rw [Option.some.inj hmap] at hlabels
      cases hlabels
    · rw [Option.some.inj hmap, List.mem_singleton, Prod.mk.injEq] at hlabels
      obtain ⟨rfl, rfl⟩ := hlabels
      exact ⟨rfl, rfl, List.mem_singleton.mp hl⟩
    · cases hmap
  obtain ⟨c, hc⟩ : ∃ c, (initial.run slotStarts).controllers[1]? = some c :=
    Option.isSome_iff_exists.mp (by decide +kernel)
  refine .of_alone hx hc (fun hb _ hl => ?_) (fun hl hl' => ?_) fun hl => ?_
  · exact hl.elim fun d hl => (hplan hb hl).1
  · exact (hplan hc hl).2.1.trans (hplan hc hl').2.1.symm
  · obtain ⟨d, hl⟩ := hl
    exact (hplan hc hl).2.2 ▸ hroster

theorem keepsSlots_slotStarts : (∀ x ∈ slotStarts, x ≠ .cancel) ∧ OwnsSlots slotStarts 1 ∧
    StartInvoked slotStarts 1 ∧
    (initial.run slotStarts).world.cells.content? "l" = some ("base", .u64 7) ∧
    KeepsSlots slotStarts := by
  have hx : ∀ x ∈ slotStarts, x ≠ .cancel :=
    List.forall_mem_append.mpr ⟨by simp, not_cancel_turns 6 2⟩
  have hstarted : StartInvoked slotStarts 1 := by
    have hstate : (initial.run slotStarts).controllers[1]?.map (·.state) = some .started := by
      decide +kernel
    obtain ⟨c, hc, hstate⟩ := Option.map_eq_some_iff.mp hstate
    by_contra hno
    rcases unbegun_run hx hc hno with h | h
    · simp [hstate, State.phase] at h
    · simpa [hstate, State.phase] using h.early
  exact ⟨hx, ownsSlots_slotStarts, hstarted, by decide +kernel, keepsSlots_run hx⟩

end System

end ServiceHost
