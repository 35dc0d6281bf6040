import ServiceHost.Proofs.System.Failing
import ServiceHost.Proofs.System.LiveSlots

/-! # While a service fails to start

From its registration on, a service that fails to start concerns only those that depend on it, and
they do not start any more. Nobody is told to stop before the start has failed. -/

namespace ServiceHost

open ServiceHost.Graph (Trial TrialStep signalsTo)

/-- Work left by a start that fails. -/
structure Task.Fails (f : Failure) (i : Nat) (t : Task) : Prop where
  owner : t.owner = i
  called : t.phase = .start
  outcome : t.work.ending.outcome .start = .error f
  ends : t.Ends

theorem Task.Fails.event {f : Failure} {i : Nat} {t : Task} (h : t.Fails f i)
    {outcome : Except Failure Unit} (ho : t.outcome? = some outcome) :
    t.event outcome = .startFailed f := by
  obtain rfl : outcome = .error f := by
    rw [h.ends outcome ho, h.called, h.outcome]
  simp [Task.event, h.called]

namespace System

variable {s₁ s s' : System} {d : Service} {i : Nat} {f : Failure}

/-! ## Reports of services that are not started yet -/

/-- The container takes note of a state and tells nobody. -/
structure NotesOne (s : System) (rest : List Request) (m : Name) (reached : State) : Prop where
  inbox : s.receive.container.inbox = rest
  opened : s.receive.container.stage = .opened
  tasks : s.receive.tasks = s.tasks
  controllers : s.receive.controllers = s.controllers
  nodes : ∀ x : Name, s.receive.container.graph.nodes[x]? =
    s.container.graph.nodes[x]?.map fun n => if m = x then { n with state := reached } else n

theorem notesOne_receive (hst : s.container.stage = .opened) {m : Name}
    {reached : State} {value : Option Value} {rest : List Request}
    (hi : s.container.inbox = .report m reached value :: rest) (hp : reached.phase < 2) :
    NotesOne s rest m reached := by
  have hopen := staysOpen_receive hst hi (by simp)
  obtain ⟨hmirrors, hhears⟩ := (mirrors_trial s).receive hi
  have hgraph : s.receive.container.graph = (s.container.graph.report m reached value).1 :=
    hmirrors.graph.symm
  have hreport : (s.container.graph.report m reached value).2 = [] ∧ ∀ x : Name,
      (s.container.graph.report m reached value).1.nodes[x]? = s.container.graph.nodes[x]?.map
        fun n => if m = x then { n with state := reached } else n := by
    cases hn : s.container.graph.nodes[m]? with
    | none =>
        rw [Graph.report_of_none hn]
        refine ⟨rfl, fun x => ?_⟩
        by_cases hx : m = x
        · subst hx
          simp [hn]
        · simp [hx]
    | some n =>
        rw [Graph.report_early hn hp]
        refine ⟨rfl, fun x => ?_⟩
        simp only [Graph.note, Graph.setNode, Std.ExtTreeMap.getElem?_insert,
          Std.LawfulEqCmp.compare_eq_iff_eq]
        by_cases hx : m = x
        · subst hx
          simp [hn]
        · simp [hx]
  have hsent : s.trial.trace [.report m reached value] = [] :=
    (List.append_nil _).trans hreport.1
  refine ⟨hopen.inbox, hopen.opened, hopen.tasks, List.ext_getElem? fun j => ?_,
    hgraph ▸ hreport.2⟩
  rw [hhears j]
  show Option.map (·.told (Trial.messagesTo j (s.trial.trace [.report m reached value])))
    (s.controllers ++ [])[j]? = _
  simp [hsent, Trial.messagesTo, Controller.told_nil]

theorem NotesOne.confined {a m : Name} {reached : State} {rest : List Request}
    {value : Option Value} (h : NotesOne s rest m reached) (hc : Confined s₁ a s)
    (hi : s.container.inbox = .report m reached value :: rest)
    (hm : s₁.container.graph.Above a m) : Confined s₁ a s.receive := by
  refine ⟨fun r hr => ?_, fun {x} {n'} hn' => ?_, fun {x} {n} hn hno => ?_, ?_, ?_⟩
  · rw [h.inbox] at hr
    exact hc.requests r (hi ▸ List.mem_cons_of_mem _ hr)
  · rw [h.nodes] at hn'
    obtain ⟨n, hn, rfl⟩ := Option.map_eq_some_iff.mp hn'
    obtain ⟨n₀, hn₀, hinbox, hdeps⟩ := hc.nodes hn
    refine ⟨n₀, hn₀, ?_, ?_⟩
    · split <;> exact hinbox
    · split <;> exact hdeps
  · obtain ⟨k, hk, hst, hs⟩ := hc.others hn hno
    have hne : m ≠ x := by
      rintro rfl
      exact hno hm
    exact ⟨k, by rw [h.nodes, hk]; simp [hne], hst, hs⟩
  · rw [h.controllers]
    exact hc.controllers
  · rw [h.tasks]
    exact hc.owners

theorem NotesOne.dooms {m : Name} {reached : State} {rest : List Request}
    (h : NotesOne s rest m reached) (hd : Dooms s₁ s) : Dooms s₁ s.receive := by
  intro x e n' c hn' hc he hthere hleaves
  rw [h.nodes] at hn'
  rw [h.controllers] at hc
  obtain ⟨n, hn, rfl⟩ := Option.map_eq_some_iff.mp hn'
  have hinbox : (if m = x then { n with state := reached } else n).inbox = n.inbox := by
    split <;> rfl
  have hdeps : (if m = x then { n with state := reached } else n).dependencies =
      n.dependencies := by
    split <;> rfl
  rw [hinbox] at hc
  rw [hdeps] at he
  refine hd hn hc he hthere fun k hk => ?_
  have hk' := hleaves (if m = e then { k with state := reached } else k)
    (by rw [h.nodes, hk, Option.map_some])
  split at hk' <;> exact hk'

/-! ## While a service fails to start -/

/-- Since a service was registered that fails to start, nobody was concerned but those that depend
on it. -/
structure Sinks (s₁ : System) (d : Service) (i : Nat) (f : Failure) (s : System) : Prop where
  opened : s.container.stage = .opened
  confined : Confined s₁ d.name s
  dooms : Dooms s₁ s
  reports : ∀ r ∈ s.container.inbox, ∃ m reached value, r = .report m reached value ∧
    reached.phase ≠ 2
  failing : ∀ {c : Controller}, s.controllers[i]? = some c →
    c.plan = d.plan none ∧ c.Fails f s.world.cells
  others : ∀ {j : Nat} {c : Controller}, s.controllers[j]? = some c → j ≠ i →
    s₁.Within d.name j → c.Aborts
  tasks : ∀ {k : Nat} {t : Task}, s.tasks[k]? = some t → t.watched = true → t.Fails f i ∧
    ∀ {c : Controller}, s.controllers[i]? = some c → c.state ≠ .waiting
  /-- Until the start has failed, nobody is told to stop. -/
  early : ∀ {c : Controller}, s.controllers[i]? = some c → c.state.phase ≤ 1 →
    (∀ {m reached value}, .report m reached value ∈ s.container.inbox → reached.phase < 2) ∧
    ∀ {j : Nat} {b : Controller}, s.controllers[j]? = some b → j ≠ i → b.signals = []
  slots : Cells.Frame (d.plan none).Binds s₁.world.cells s.world.cells

namespace Sinks

theorem calm (h : Sinks s₁ d i f s) (ho : s.Orderly) {x : Stimulus} (hs : Step s x s')
    (hcalm : s.Calm s') : Sinks s₁ d i f s' := by
  have hstate : ∀ {c c' : Controller}, c.Noticed c' → c'.state = c.state := by
    rintro c c' (rfl | rfl) <;> rfl
  refine ⟨hcalm.container ▸ h.opened, h.confined.calm hcalm,
    h.dooms.still ho hs (congrArg Container.graph hcalm.container), hcalm.container ▸ h.reports,
    fun {c'} hc' => ?_, fun {j} {c'} hc' hj hw => ?_, fun {k} {t'} ht' hw => ?_,
    fun {c'} hc' hp => ?_, hcalm.cells ▸ h.slots⟩
  · obtain ⟨c, hc, hn⟩ := hcalm.exists_controller hc'
    obtain ⟨hplan, hfails⟩ := h.failing hc
    exact ⟨hn.rests.plan.trans hplan, hcalm.cells ▸ hfails.noticed hn⟩
  · obtain ⟨c, hc, hn⟩ := hcalm.exists_controller hc'
    exact (h.others hc hj hw).noticed hn
  · obtain ⟨t, ht, hf⟩ := hcalm.exists_task ht'
    have hwatched := hf.watched.resolve_right (by simp [hw])
    obtain ⟨hfails, hbegun⟩ := h.tasks ht (hwatched ▸ hw)
    refine ⟨⟨hf.owner.trans hfails.owner, hf.phase.trans hfails.called,
      hf.work ▸ hfails.outcome, hf.ends hfails.ends⟩, fun hc' => ?_⟩
    obtain ⟨c, hc, hn⟩ := hcalm.exists_controller hc'
    exact hstate hn ▸ hbegun hc
  · obtain ⟨c, hc, hn⟩ := hcalm.exists_controller hc'
    obtain ⟨hreports, hsignals⟩ := h.early hc (hstate hn ▸ hp)
    refine ⟨hcalm.container ▸ hreports, fun {j} {b'} hb' hj => ?_⟩
    obtain ⟨b, hb, hn⟩ := hcalm.exists_controller hb'
    rcases hn with rfl | rfl
    · exact hsignals hb hj
    · exact (Controller.alarm_signals _).trans (hsignals hb hj)

theorem joins (h : Sinks s₁ d i f s) (ho : s.Orderly) {x : Stimulus} (hs : Step s x s')
    {t : Task} {outcome : Except Failure Unit} {id : Nat} (hj : s.Joins t outcome id s') :
    Sinks s₁ d i f s' := by
  obtain ⟨hfails, hbegun⟩ := h.tasks hj.task hj.watched
  have hevent := hfails.event hj.ended
  have htold : ∀ {j : Nat}, j ≠ i → s'.controllers[j]? = s.controllers[j]? := by
    intro j hne
    rw [hj.controllers]
    simp [Trial.messagesTo, hfails.owner, Ne.symm hne, Controller.told_nil]
  have hself : ∀ {c' : Controller}, s'.controllers[i]? = some c' → ∃ c,
      s.controllers[i]? = some c ∧ c' = c.told [.lifecycle (.startFailed f)] := by
    intro c' hc'
    rw [hj.controllers] at hc'
    obtain ⟨c, hc, rfl⟩ := Option.map_eq_some_iff.mp hc'
    exact ⟨c, hc, by simp [Trial.messagesTo, hfails.owner, hevent]⟩
  refine ⟨hj.container ▸ h.opened, h.confined.joins hj,
    h.dooms.still ho hs (congrArg Container.graph hj.container), hj.container ▸ h.reports,
    fun {c'} hc' => ?_, fun {j} {c'} hc' hne hw => ?_, fun {k} {t'} ht' hw => ?_,
    fun {c'} hc' hp => ?_, hj.cells ▸ h.slots⟩
  · obtain ⟨c, hc, rfl⟩ := hself hc'
    obtain ⟨hplan, hc'⟩ := h.failing hc
    refine ⟨(c.told_plan _).trans hplan, hj.cells ▸ hc'.told fun _ e he => ⟨hbegun hc, ?_⟩⟩
    simpa using he
  · exact h.others (htold hne ▸ hc') hne hw
  · obtain ⟨hfails', hbegun'⟩ := h.tasks (hj.task_of_watched ht' hw) hw
    refine ⟨hfails', fun hc' => ?_⟩
    obtain ⟨c, hc, rfl⟩ := hself hc'
    rw [c.told_state]
    exact hbegun' hc
  · obtain ⟨c, hc, rfl⟩ := hself hc'
    rw [c.told_state] at hp
    obtain ⟨hreports, hsignals⟩ := h.early hc hp
    exact ⟨hj.container ▸ hreports, fun hb hne => hsignals (htold hne ▸ hb) hne⟩

/-- A turn of the service that fails to start. -/
theorem turn (h : Sinks s₁ d i f s) (ho : s.Orderly) {c : Controller} {t : Turn}
    (hc : s.controllers[i]? = some c) (ht : t.Fails f s.world c)
    (hplan : t.controller.plan = c.plan)
    (hended : t.controller.ended = true → t.controller.state = .removed)
    (hconfined : Confined s₁ d.name (s.applyTurn i t)) {x : Stimulus}
    (hs : Step s x (s.applyTurn i t)) : Sinks s₁ d i f (s.applyTurn i t) := by
  have hid : i < s.controllers.length := (List.getElem?_eq_some_iff.mp hc).1
  have ha := applies_applyTurn (t := t) hid
  have hserving : s.container.isServing = true := by simp [Container.isServing, h.opened]
  have hinbox : ∀ {r}, r ∈ (s.applyTurn i t).container.inbox → r ∈ s.container.inbox ∨
      ∃ value, r = .report c.plan.name t.controller.state value := by
    intro r hr
    rw [ha.container, Container.sent, if_pos hserving, ht.requests, List.nil_append,
      List.mem_append] at hr
    exact hr.imp_right fun hr => ht.reported r (by simpa using hr)
  have hself : ∀ {c' : Controller}, (s.applyTurn i t).controllers[i]? = some c' →
      c' = t.final s.tasks.length := fun hc' =>
    ((ha.cases_controller hc').resolve_right fun hi => hi.1 rfl).2
  have hother : ∀ {j : Nat}, j ≠ i → (s.applyTurn i t).controllers[j]? = s.controllers[j]? := by
    intro j hj
    rw [ha.controllers, List.getElem?_set_ne (Ne.symm hj)]
  obtain ⟨hsame, _⟩ := h.failing hc
  refine ⟨?_, hconfined, h.dooms.still ho hs (by rw [ha.container, sent_graph]), fun r hr => ?_,
    fun {c'} hc' => ?_, fun {j} {b} hb hj hw => ?_, fun {k} {task} htask hw => ?_,
    fun {c'} hc' hp => ?_, ?_⟩
  · rw [ha.container, sent_stage, h.opened]
  · rcases hinbox hr with hr | ⟨value, rfl⟩
    · exact h.reports r hr
    · exact ⟨_, _, _, rfl, ht.controller.not_started⟩
  · obtain rfl := hself hc'
    rw [applyTurn_cells]
    exact ⟨(t.final_plan _).trans (hplan.trans hsame), ht.controller.final hended _⟩
  · exact h.others (hother hj ▸ hb) hj hw
  · have hlater : ∀ {c' : Controller}, c.state ≠ .waiting ∨ t.controller.state ≠ .waiting →
        (s.applyTurn i t).controllers[i]? = some c' → c'.state ≠ .waiting := by
      intro c' hbegun hc' hwaits
      rw [hself hc', t.final_state] at hwaits
      have hle := ht.phase
      rw [hwaits] at hle
      exact hbegun.elim (fun hno => hno (State.phase_eq_zero.mp (Nat.le_zero.mp hle)))
        fun hno => hno hwaits
    rcases ha.cases_task htask with ⟨p, work, hd, rfl⟩ | ⟨task', htask', rfl | rfl⟩
    · obtain ⟨rfl, hwork, hbegun⟩ := ht.deferred p work hd
      exact ⟨⟨rfl, rfl, hwork, fun _ ho => by cases ho⟩, hlater (.inr hbegun)⟩
    · obtain ⟨hfails, hbegun⟩ := h.tasks htask' hw
      exact ⟨hfails, hlater (.inl (hbegun hc))⟩
    · obtain ⟨hfails, hbegun⟩ := h.tasks htask' hw
      exact ⟨⟨hfails.owner, hfails.called, hfails.outcome, hfails.ends⟩,
        hlater (.inl (hbegun hc))⟩
  · rw [hself hc', t.final_state] at hp
    obtain ⟨hreports, hsignals⟩ := h.early hc (Nat.le_trans ht.phase hp)
    refine ⟨fun {m reached value} hr => ?_, fun hb hj => hsignals (hother hj ▸ hb) hj⟩
    rcases hinbox hr with hr | ⟨_, he⟩
    · exact hreports hr
    · cases he
      omega
  · rw [applyTurn_cells]
    exact h.slots.trans (hsame ▸ ht.cells)

/-- A turn of another service. -/
theorem turn_other (h : Sinks s₁ d i f s) (ho : s.Orderly) {j : Nat} {b : Controller} {t : Turn}
    (hb : s.controllers[j]? = some b) (hj : j ≠ i) (hrequests : t.requests = [])
    (hdeferred : t.deferred = none)
    (hreported : ∀ r, t.reported = some r → ∃ value, r = .report b.plan.name .removed value)
    (hskipped : b.signals = [] → t.reported = none ∧ t.controller.signals = [])
    (haborts : s₁.Within d.name j → t.controller.Aborts)
    (hcells : Cells.Frame (fun _ => False) s.world.cells t.world.cells)
    (hconfined : Confined s₁ d.name (s.applyTurn j t)) {x : Stimulus}
    (hs : Step s x (s.applyTurn j t)) : Sinks s₁ d i f (s.applyTurn j t) := by
  have hid : j < s.controllers.length := (List.getElem?_eq_some_iff.mp hb).1
  have ha := applies_applyTurn (t := t) hid
  have hserving : s.container.isServing = true := by simp [Container.isServing, h.opened]
  have hinbox : ∀ {r}, r ∈ (s.applyTurn j t).container.inbox → r ∈ s.container.inbox ∨
      t.reported = some r := by
    intro r hr
    rw [ha.container, Container.sent, if_pos hserving, hrequests, List.nil_append,
      List.mem_append] at hr
    exact hr.imp_right fun hr => by simpa using hr
  have hself : ∀ {c : Controller}, (s.applyTurn j t).controllers[i]? = some c →
      s.controllers[i]? = some c := by
    intro c hc
    exact ((ha.cases_controller hc).resolve_left fun hi => hj hi.1).2
  refine ⟨?_, hconfined, h.dooms.still ho hs (by rw [ha.container, sent_graph]), fun r hr => ?_,
    fun {c} hc => ?_, fun {l} {c'} hc' hl hw => ?_, fun {k} {task} htask hw => ?_,
    fun {c} hc hp => ?_, ?_⟩
  · rw [ha.container, sent_stage, h.opened]
  · rcases hinbox hr with hr | hr
    · exact h.reports r hr
    · obtain ⟨value, rfl⟩ := hreported r hr
      exact ⟨_, _, _, rfl, by simp [State.phase]⟩
  · obtain ⟨hplan, hfails⟩ := h.failing (hself hc)
    rw [applyTurn_cells]
    exact ⟨hplan, hfails.congr hcells⟩
  · rcases ha.cases_controller hc' with ⟨rfl, rfl⟩ | ⟨_, hold⟩
    · exact (haborts hw).final hdeferred _
    · exact h.others hold hl hw
  · rcases ha.cases_task htask with ⟨p, work, hd, rfl⟩ | ⟨task', htask', rfl | rfl⟩
    · simp [hdeferred] at hd
    · obtain ⟨hfails, hbegun⟩ := h.tasks htask' hw
      exact ⟨hfails, fun hc => hbegun (hself hc)⟩
    · obtain ⟨hfails, hbegun⟩ := h.tasks htask' hw
      exact ⟨⟨hfails.owner, hfails.called, hfails.outcome, hfails.ends⟩,
        fun hc => hbegun (hself hc)⟩
  · obtain ⟨hreports, hsignals⟩ := h.early (hself hc) hp
    obtain ⟨hnone, hsilent⟩ := hskipped (hsignals hb hj)
    refine ⟨fun hr => hreports ((hinbox hr).resolve_right (by simp [hnone])), fun hc' hl => ?_⟩
    rcases ha.cases_controller hc' with ⟨rfl, rfl⟩ | ⟨_, hold⟩
    · rw [Controller.signals, Turn.final_inbox]
      split
      · rfl
      · exact hsilent
    · exact hsignals hold hl
  · rw [applyTurn_cells]
    exact h.slots.trans (hcells.mono fun _ => False.elim)

theorem take (h : Sinks s₁ d i f s) (h₁ : s₁.Orderly) (ho : s.Orderly) {id : Nat}
    {c : Controller} (hc : s.controllers[id]? = some c) (hcan : c.canTake = true) :
    Sinks s₁ d i f (s.applyTurn id (c.take id s.world)) := by
  have hs : Step s _ (s.applyTurn id (c.take id s.world)) := .took id c hc hcan
  by_cases hi : id = i
  · subst hi
    obtain ⟨hplan, hfails⟩ := h.failing hc
    have hready : (d.plan none).Ready (s.world.cells.createFor d) := d.ready none
    have ht := hfails.take (hplan ▸ hready.needed) hcan id
    refine h.turn ho hc ht ((Turn.final_plan _ 0).symm.trans (plan_take hcan id 0 s.world))
      (fun hended => ?_) (h.confined.take h₁ hc hcan ht.requests) hs
    have hle := ht.phase
    rw [Controller.removed_of_ended hcan hended] at hle
    cases hst : (c.take id s.world).controller.state <;> simp_all [State.phase]
  · by_cases hw : s₁.Within d.name id
    · have ht := (h.others hc hi hw).take hcan id (w := s.world)
      refine h.turn_other ho hc hi ht.requests ht.deferred ht.reported (fun hsilent => ?_)
        (fun _ => ht.controller) ht.cells (h.confined.take h₁ hc hcan ht.requests) hs
      obtain ⟨_, hskipped, hrest, _⟩ := Controller.take_silent hsilent hcan id s.world
      exact ⟨hskipped.reported, hrest⟩
    · obtain ⟨_, _, _, hstill⟩ := h.confined.controllers hc
      obtain ⟨_, hskipped, hrest, hcells⟩ :=
        Controller.take_silent (hstill hw).2.2 hcan id s.world
      exact h.turn_other ho hc hi hskipped.requests hskipped.deferred (by simp [hskipped.reported])
        (fun _ => ⟨hskipped.reported, hrest⟩) (absurd · hw) hcells
        (h.confined.take h₁ hc hcan hskipped.requests) hs

theorem resume (h : Sinks s₁ d i f s) (h₁ : s₁.Orderly) (ho : s.Orderly) {id : Nat}
    {c : Controller} {callback : Callback} {answer : Option (Awaited × Except Error Answer)}
    (hc : s.controllers[id]? = some c) (hwake : c.wakeUp? s.world = some (callback, answer)) :
    Sinks s₁ d i f (s.applyTurn id (c.resume id s.world)) := by
  have hcallback := Controller.callback_of_wakeUp? hwake
  -- the only callback that may be under way is that of the service which fails to start
  obtain rfl : id = i := by
    by_contra hi
    by_cases hw : s₁.Within d.name id
    · simp [(h.others hc hi hw).idle] at hcallback
    · obtain ⟨_, _, _, hstill⟩ := h.confined.controllers hc
      simp [(hstill hw).2.1] at hcallback
  obtain ⟨_, hfails⟩ := h.failing hc
  have ht := hfails.resume hwake id
  have halike := (Controller.resume_resumed hwake id).alike
  refine h.turn ho hc ht halike.plan (fun hended => ?_)
    (h.confined.resume h₁ hc hwake ht.requests) (.resumed id c callback answer hc hwake)
  rw [halike.state]
  exact ((ho.attended hc).ended (halike.ended ▸ hended)).1

/-- The container takes note of the report that the service is being started. -/
theorem notes (h : Sinks s₁ d i f s) {m : Name} {reached : State} {value : Option Value}
    {rest : List Request}
    (hi : s.container.inbox = .report m reached value :: rest) (hp : reached.phase < 2) :
    Sinks s₁ d i f s.receive := by
  have hnotes := notesOne_receive h.opened hi hp
  have hcells := receive_cells s
  have habove : s₁.container.graph.Above d.name m := by
    rcases h.confined.requests (.report m reached value) (by simp [hi]) with
      ⟨_, he⟩ | ⟨_, _, _, he, hm⟩
    · cases he
    · cases he
      exact hm
  have hinbox : ∀ {r}, r ∈ s.receive.container.inbox → r ∈ s.container.inbox := by
    intro r hr
    rw [hnotes.inbox] at hr
    exact hi ▸ List.mem_cons_of_mem _ hr
  refine ⟨hnotes.opened, hnotes.confined h.confined hi habove, hnotes.dooms h.dooms,
    fun r hr => h.reports r (hinbox hr), ?_, ?_, ?_, fun {c} hc hp => ?_, hcells ▸ h.slots⟩
  · rw [hnotes.controllers, hcells]
    exact h.failing
  · rw [hnotes.controllers]
    exact h.others
  · rw [hnotes.tasks, hnotes.controllers]
    exact h.tasks
  · rw [hnotes.controllers] at hc ⊢
    obtain ⟨hreports, hsignals⟩ := h.early hc hp
    exact ⟨fun hr => hreports (hinbox hr), hsignals⟩

/-- The container takes the report that a service is on its way out. -/
theorem stops (h : Sinks s₁ d i f s) (ho : s.Orderly) {m : Name} {reached : State}
    {value : Option Value} {rest : List Request}
    (hi : s.container.inbox = .report m reached value :: rest) (hp : reached.Leaving) :
    Sinks s₁ d i f s.receive := by
  have hasks : s.AsksToStop := fun he => by
    obtain ⟨he, _⟩ := List.cons.inj (hi.symm.trans he)
    cases he
    exact hp
  obtain ⟨step, b, hstop, _⟩ := h.confined.stopsOne h.opened ho hasks hi
  have hopen := staysOpen_receive h.opened hi (by simp)
  have hcells := receive_cells s
  -- so the start has failed already
  have hlate : ∀ {c : Controller}, s.controllers[i]? = some c → ¬c.state.phase ≤ 1 := by
    intro c hc hle
    have hmem : .report m reached value ∈ s.container.inbox := by simp [hi]
    have hearly := (h.early hc hle).1 hmem
    have hlate : 3 ≤ reached.phase := hp
    omega
  have hbefore : ∀ {j : Nat} {c' : Controller}, s.receive.controllers[j]? = some c' →
      ∃ c, s.controllers[j]? = some c ∧ c' = c.told (Trial.messagesTo j (s.trial.sends step)) := by
    intro j c' hc'
    rw [hstop.hears j] at hc'
    obtain ⟨c, hc, rfl⟩ := Option.map_eq_some_iff.mp hc'
    exact ⟨c, hc, rfl⟩
  refine ⟨hopen.opened, h.confined.receive hi hstop, h.dooms.receive ho hstop, fun r hr => ?_,
    fun {c'} hc' => ?_, fun {j} {c'} hc' hj hw => ?_, fun {k} {t} ht hw => ?_,
    fun {c'} hc' hp => ?_, hcells ▸ h.slots⟩
  · rw [hstop.inbox] at hr
    exact h.reports r (hi ▸ List.mem_cons_of_mem _ hr)
  · obtain ⟨c, hc, rfl⟩ := hbefore hc'
    obtain ⟨hplan, hfails⟩ := h.failing hc
    exact ⟨(c.told_plan _).trans hplan, hcells ▸ hfails.told fun hle => absurd hle (hlate hc)⟩
  · obtain ⟨c, hc, rfl⟩ := hbefore hc'
    refine (h.others hc hj hw).told fun hx => ?_
    rw [messagesTo_signals] at hx
    cases hstop.sound.tells hx with
    | available hno => exact hno b hstop.stops
  · rw [hstop.tasks] at ht
    obtain ⟨hfails, hbegun⟩ := h.tasks ht hw
    refine ⟨hfails, fun hc' => ?_⟩
    obtain ⟨c, hc, rfl⟩ := hbefore hc'
    rw [c.told_state]
    exact hbegun hc
  · obtain ⟨c, hc, rfl⟩ := hbefore hc'
    rw [c.told_state] at hp
    exact absurd hp (hlate hc)

/-- Whatever happens by itself, it stays so. -/
theorem step (h : Sinks s₁ d i f s) (h₁ : s₁.Orderly) (ho : s.Orderly) {x : Stimulus}
    (hs : Step s x s') (hx : x.isInternal = true) : Sinks s₁ d i f s' := by
  have hstep := hs
  cases hs with
  | calm hcalm => exact h.calm ho hstep hcalm
  | opened | asked => cases hx
  | received r rest hserving hi =>
      obtain ⟨m, reached, value, rfl, hp⟩ := h.reports r (by simp [hi])
      by_cases hearly : reached.phase < 2
      · exact h.notes hi hearly
      · exact h.stops ho hi (show 3 ≤ reached.phase by omega)
  | finished hst => simp [h.opened] at hst
  | took id c hc hcan => exact h.take h₁ ho hc hcan
  | resumed id c callback answer hc hwake => exact h.resume h₁ ho hc hwake
  | joined id t outcome hj => exact h.joins ho hstep hj

end Sinks

end System

end ServiceHost
