import ServiceHost.Proofs.Bindings
import ServiceHost.Proofs.System.Filling
import ServiceHost.Proofs.System.Replay

/-! # What the rosters come to show

While services are installed, nobody is said to leave a group. So a roster shows those, and only
those, of whom a service that has it for a group has taken in that they joined that group, as far as
their values have the type of the roster. -/

namespace ServiceHost

open ServiceHost.Graph (Trial TrialStep updatesTo)

/-- Who belongs on a roster: a service that can start, with the value it exposes, if some service has
the roster for its group. -/
def Listed (services : List Service) (l : Label) (p : Name × Value) : Prop :=
  ∃ d ∈ services, Founded services d.name ∧ d.name = p.1 ∧ d.value = p.2 ∧
    ∃ group, d.group = some group ∧ ∃ e ∈ services, e.rosterFor? group = some l

theorem Listed.mono {services services' : List Service} (h : services ⊆ services') {l : Label}
    {p : Name × Value} (hp : Listed services l p) : Listed services' l p := by
  obtain ⟨d, hd, hfound, hname, hvalue, group, hgroup, e, he, hl⟩ := hp
  exact ⟨d, h hd, hfound.mono h, hname, hvalue, group, hgroup, e, h he, hl⟩

namespace Roster

variable {roster : Roster}

@[simp] theorem after_type (u : GroupUpdate) : (roster.after u).type = roster.type := by
  cases u with
  | added group member value =>
      rw [after]
      split <;> rfl
  | removed group member => rfl

/-- Whoever joins a group is on the roster from now on, if the value has its type. -/
theorem getElem?_after_added (group member : Name) (value : Value) (m : Name) :
    (roster.after (.added group member value)).members[m]? =
      if member = m ∧ value.type = roster.type then some value else roster.members[m]? := by
  rw [after]
  by_cases htype : value.type = roster.type
  · simp [htype, Std.ExtTreeMap.getElem?_insert]
  · simp [htype]

end Roster

namespace System

variable {s s' : System} {x : Stimulus} {type : Label → ValueType} {happened : List Stimulus}
  {i : Nat} {c : Controller} {l : Label} {roster : Roster} {p : Name × Value}

/-! ## Cells that come to be rosters -/

/-- A slot is no roster after a step. -/
theorem Handled.slot? (h : s.Handled x s') {slot : Slot} (hslot : s.world.cells.slot? l = some slot) :
    s'.world.cells.roster? l = none := by
  have hkept {cells : Cells} {slot : Slot} (hgrows : cells.Grows s'.world.cells)
      (hslot : cells.slot? l = some slot) : s'.world.cells.roster? l = none := by
    rcases hgrows l with he | ⟨hnone, -⟩
    · rw [Cells.roster?, he]
      unfold Cells.slot? at hslot
      split at hslot <;> simp_all
    · simp [Cells.slot?, hnone] at hslot
  cases h with
  | takes hx hc hcan hcontrollers hfinal hplan ha hh hgrows =>
      have htype := hh.frame.type l
      rw [hslot, Option.map_some] at htype
      obtain ⟨slot', hslot', -⟩ := Option.map_eq_some_iff.mp htype
      exact hkept hgrows hslot'
  | rests hx hgrows hkept' h => exact hkept hgrows hslot

/-- Nobody is on a roster that comes into being, as long as no service binds it. -/
theorem Handled.members_eq_empty (h : s.Handled x s') (hno : l ∉ s.world.cells)
    (hbound : ∀ {i : Nat} {c : Controller}, s.controllers[i]? = some c →
      l ∉ c.plan.rosters.values) : s'.world.cells.members l = ∅ := by
  have hempty : s.world.cells.members l = ∅ := by
    simp [Cells.members, Cells.roster?, Std.ExtTreeMap.getElem?_eq_none hno]
  cases h with
  | takes hx hc hcan hcontrollers hfinal hplan ha hh hgrows =>
      rw [hgrows.members, hh.members (hbound hc), hempty]
  | rests hx hgrows hkept h => rw [hgrows.members, hempty]

/-! ## What has been taken in -/

/-- A service that has a roster for a group took in that another joined the group with a value. -/
def TakenIn (happened : List Stimulus) (l : Label) (p : Name × Value) : Prop :=
  ∃ (i : Nat) (c : Controller) (group : Name), (initial.run happened).controllers[i]? = some c ∧
    c.plan.rosters[group]? = some l ∧
    .added group p.1 p.2 ∈ (initial.intake happened i).filterMap Message.update?

/-- A service that has a roster for a group takes in that another joins the group with a value. -/
def TakesIn (s : System) (x : Stimulus) (l : Label) (p : Name × Value) : Prop :=
  ∃ (i : Nat) (c : Controller) (group : Name), s.controllers[i]? = some c ∧
    c.plan.rosters[group]? = some l ∧ s.taken? x i = some (.reference (.added group p.1 p.2))

theorem takenIn_snoc : TakenIn (happened ++ [x]) l p ↔
    TakenIn happened l p ∨ (initial.run happened).TakesIn x l p := by
  have hupdate (o : Option Message) (u : GroupUpdate) :
      u ∈ o.toList.filterMap Message.update? ↔ o = some (.reference u) := by
    rcases o with _ | (_ | _) <;> simp [Message.update?, eq_comm]
  constructor
  · rintro ⟨i, c', group, hc', hl, hu⟩
    rw [intake_snoc, List.filterMap_append, List.mem_append, hupdate] at hu
    rw [run_snoc] at hc'
    cases hc : (initial.run happened).controllers[i]? with
    | none => simp [intake_eq_nil _ hc, taken?_of_none hc] at hu
    | some c =>
        obtain ⟨b, hb, hplan, -⟩ := kept_apply hc x
        obtain rfl := Option.some.inj (hc'.symm.trans hb)
        rw [hplan] at hl
        exact hu.imp (fun hu => ⟨i, c, group, hc, hl, hu⟩) fun hu => ⟨i, c, group, hc, hl, hu⟩
  · have hkept {i : Nat} {c : Controller} {group : Name}
        (hc : (initial.run happened).controllers[i]? = some c)
        (hl : c.plan.rosters[group]? = some l)
        (hu : .added group p.1 p.2 ∈ (initial.intake happened i).filterMap Message.update? ∨
          (initial.run happened).taken? x i = some (.reference (.added group p.1 p.2))) :
        TakenIn (happened ++ [x]) l p := by
      obtain ⟨c', hc', hplan, -⟩ := kept_apply hc x
      refine ⟨i, c', group, by rw [run_snoc, hc'], hplan ▸ hl, ?_⟩
      rwa [intake_snoc, List.filterMap_append, List.mem_append, hupdate]
    rintro (⟨i, c, group, hc, hl, hu⟩ | ⟨i, c, group, hc, hl, hu⟩)
    · exact hkept hc hl (.inl hu)
    · exact hkept hc hl (.inr hu)

theorem not_takesIn_of_idle (hidle : ∀ i, s.taken? x i = none) : ¬s.TakesIn x l p := by
  rintro ⟨i, _, _, _, _, htaken⟩
  simp [hidle i] at htaken

/-- Only one service takes anything in during a step. -/
theorem takesIn_iff {j : Nat} {b : Controller} {message : Message}
    (hb : s.controllers[j]? = some b) (hm : s.taken? x j = some message)
    (hidle : ∀ i, i ≠ j → s.taken? x i = none) : s.TakesIn x l p ↔
      ∃ group, b.plan.rosters[group]? = some l ∧
        message = .reference (.added group p.1 p.2) := by
  constructor
  · rintro ⟨i, c, group, hc, hl, htaken⟩
    obtain rfl : i = j := by
      by_contra hi
      simp [hidle i hi] at htaken
    obtain rfl := Option.some.inj (hc.symm.trans hb)
    exact ⟨group, hl, Option.some.inj (hm.symm.trans htaken)⟩
  · rintro ⟨group, hl, rfl⟩
    exact ⟨j, b, group, hb, hl, hm⟩

namespace OnlyInstalls

/-- Nobody is told anything of a group but that a service that was asked for is a member of it, with
its value. -/
theorem told (h : OnlyInstalls happened) (hf : Fits type (installRequests happened))
    {u : GroupUpdate} (hu : u ∈ updatesTo i (Trial.fresh.trace (initial.history happened))) :
    ∃ d ∈ installRequests happened, ∃ group, d.group = some group ∧
      u = .added group d.name d.value := by
  induction h with
  | opened origin => cases hu
  | @went happened x h hx ih =>
      have hall := (h.went hx).run hf
      have ho := orderly_run (h.went hx).not_cancel
      have hgraph := (mirrors_run (happened ++ [x])).graph
      rw [installRequests_went hx] at hf hall ⊢
      rw [history_snoc, Trial.trace_append_steps, Graph.updatesTo_append, List.mem_append] at hu
      refine hu.elim (ih hf) fun hu => ?_
      rw [history_snoc] at hgraph
      obtain ⟨step, hstep, hno⟩ : ∃ step, (initial.run happened).steps x = [step] ∧
          ∀ a, ¬step.Stops a := by
        have hsome : (initial.run happened).steps x ≠ [] := by
          intro hnil
          simp [hnil, Trial.trace] at hu
        by_cases hreceive : x = .move .receive
        · subst hreceive
          rcases apply_receive (initial.run happened) with ⟨r, rest, hserving, hi, -⟩ | ⟨hnil, -⟩
          · rw [steps_receive hserving hi] at hsome ⊢
            have hsuits := (h.run hf).phased.requests r (hi ▸ List.mem_cons_self)
            exact (hsuits.steps _).resolve_left hsome
          · exact absurd hnil hsome
        · exact absurd (steps_of_ne hreceive) hsome
      have hsound := Trial.sound_after (initial.history happened)
      rw [hstep, Trial.trace, Trial.trace, List.append_nil] at hu
      rw [hstep, Trial.after_append] at hgraph
      obtain ⟨group, m, v, rfl⟩ := Trial.eq_added_of_unstopped hno hu
      -- whoever joins is in the graph then, with what the plan says
      have hshown := hsound.member?_of_added (Trial.filed_after _) hu
      rw [hgraph, Graph.member?, Option.bind_eq_some_iff] at hshown
      obtain ⟨n, hn, hshown⟩ := hshown
      split at hshown
      · next hmember =>
          obtain ⟨d, c, hd, rfl, hc, hplan, hl⟩ := hall.known ho hn
          obtain ⟨b, hb, -, hgroup, -⟩ := enrolled_run _ hn
          obtain rfl := Option.some.inj (hc.symm.trans hb)
          refine ⟨d, hd, group, ?_, ?_⟩
          · rw [← hmember.1, hgroup, hplan, Declaration.plan_group]
          · rw [hl.value v hshown, hplan, Declaration.plan_value]
      · cases hshown
  | @requested happened h origin d ih =>
      rw [installRequests_requested] at hf ⊢
      rw [history_snoc, steps_of_ne (by simp), List.append_nil] at hu
      obtain ⟨e, he, hsame⟩ := ih (hf.sublist (List.sublist_append_left _ [d])) hu
      exact ⟨e, List.mem_append_left _ he, hsame⟩

/-- Whatever a service has taken in of groups it was told. -/
theorem told_of_intake (h : OnlyInstalls happened) (hf : Fits type (installRequests happened))
    {u : GroupUpdate} (hu : u ∈ (initial.intake happened i).filterMap Message.update?) :
    u ∈ updatesTo i (Trial.fresh.trace (initial.history happened)) := by
  rw [updates_run happened fun hc => (h.run hf).alive _ (List.mem_of_getElem? hc)]
  exact List.mem_append_left _ hu

/-- Of each service only one value is ever taken in. -/
theorem takenIn_unique (h : OnlyInstalls happened) (hf : Fits type (installRequests happened))
    {m : Name} {v w : Value} (hv : TakenIn happened l (m, v)) (hw : TakenIn happened l (m, w)) :
    v = w := by
  obtain ⟨_, _, _, _, _, hv⟩ := hv
  obtain ⟨_, _, _, _, _, hw⟩ := hw
  obtain ⟨d, hd, _, _, hu⟩ := h.told hf (h.told_of_intake hf hv)
  obtain ⟨e, he, _, _, hu'⟩ := h.told hf (h.told_of_intake hf hw)
  obtain ⟨-, rfl, rfl⟩ := GroupUpdate.added.inj hu
  obtain ⟨-, hname, rfl⟩ := GroupUpdate.added.inj hu'
  rw [List.inj_on_of_nodup_map hf.names hd he hname]

/-- The rosters of the services that were asked for exist. -/
theorem created (h : OnlyInstalls happened) (hf : Fits type (installRequests happened)) :
    ∀ d ∈ installRequests happened, ∀ r ∈ d.rosters,
      r.label ∈ (initial.run happened).world.cells := by
  induction h with
  | opened origin => exact fun d hd => absurd hd List.not_mem_nil
  | @went happened x h hx ih =>
      have ho := orderly_run h.not_cancel
      rw [installRequests_went hx] at hf ⊢
      rw [run_snoc]
      refine fun d hd r hr => (ho.handled (step_apply ho.uncancelled ?_) rfl).mem (ih hf d hd r hr)
      rintro rfl
      cases hx
  | @requested happened h origin d ih =>
      rw [installRequests_requested] at hf ⊢
      have hbefore := hf.sublist (List.sublist_append_left _ [d])
      rw [run_snoc, (asksFor_apply (h.run hbefore).phased.opened origin d).cells]
      intro e he r hr
      rw [Cells.mem_createFor]
      rcases List.mem_append.mp he with he | he
      · exact .inr (.inr (ih hbefore e he r hr))
      · exact .inl ⟨r, List.mem_singleton.mp he ▸ hr, rfl⟩

/-- Whatever roster a service has exists. -/
theorem bound (h : OnlyInstalls happened) (hf : Fits type (installRequests happened))
    (hc : (initial.run happened).controllers[i]? = some c) (hl : l ∈ c.plan.rosters.values) :
    l ∈ (initial.run happened).world.cells := by
  obtain ⟨d, hd, hplan⟩ := (h.run hf).lined.declared hc
  obtain ⟨group, hl⟩ := Plan.mem_rosters.mp hl
  rw [hplan, Declaration.plan_rosters] at hl
  obtain ⟨r, hr, rfl⟩ := Declaration.exists_of_rosterFor? hl
  exact h.created hf d (List.mem_of_getElem? hd) r hr

end OnlyInstalls

/-! ## Who is on a roster -/

/-- Every roster shows those who were taken in for it, as far as their values have its type. -/
def Showing (happened : List Stimulus) : Prop :=
  ∀ ⦃l : Label⦄ ⦃roster : Roster⦄, (initial.run happened).world.cells[l]? = some (.roster roster) →
    ∀ p : Name × Value, roster.members[p.1]? = some p.2 ↔
      p.2.type = roster.type ∧ TakenIn happened l p

/-- A roster that is left alone goes on to show the same. -/
theorem Showing.rests (h : Showing happened)
    (hr : (initial.run happened).world.cells[l]? = some (.roster roster))
    (hno : ∀ p, ¬(initial.run happened).TakesIn x l p) (p : Name × Value) :
    roster.members[p.1]? = some p.2 ↔ p.2.type = roster.type ∧ TakenIn (happened ++ [x]) l p := by
  rw [h hr p, takenIn_snoc, or_iff_left (hno p)]

/-- A roster that takes in who joins a group shows them as well. -/
theorem Showing.joins (h : Showing happened)
    (hr : (initial.run happened).world.cells[l]? = some (.roster roster)) {group m : Name}
    {v : Value} (hnow : ∀ p, (initial.run happened).TakesIn x l p ↔ p = (m, v))
    (hunique : ∀ {w : Value}, TakenIn (happened ++ [x]) l (m, w) → w = v) (p : Name × Value) :
    (roster.after (.added group m v)).members[p.1]? = some p.2 ↔
      p.2.type = roster.type ∧ TakenIn (happened ++ [x]) l p := by
  obtain ⟨e, w⟩ := p
  rw [Roster.getElem?_after_added]
  by_cases hjoins : m = e ∧ v.type = roster.type
  · obtain ⟨rfl, htype⟩ := hjoins
    rw [if_pos ⟨rfl, htype⟩, Option.some.injEq]
    constructor
    · rintro rfl
      exact ⟨htype, takenIn_snoc.mpr (.inr ((hnow _).mpr rfl))⟩
    · exact fun hw => (hunique hw.2).symm
  · rw [if_neg hjoins, h hr (e, w), takenIn_snoc]
    refine and_congr_right fun htype => (or_iff_left fun htakes => ?_).symm
    obtain ⟨rfl, rfl⟩ := Prod.mk.inj ((hnow _).mp htakes)
    exact hjoins ⟨rfl, htype⟩

/-- A roster shows what it replays, if that is about who joins a group, and nothing else was ever
said of them. -/
theorem Showing.replays (h : Showing happened)
    (hr : (initial.run happened).world.cells[l]? = some (.roster roster)) {j : Nat} {b : Controller}
    {message : Message} (hb : (initial.run happened).controllers[j]? = some b)
    (hm : (initial.run happened).taken? x j = some message)
    (hidle : ∀ i, i ≠ j → (initial.run happened).taken? x i = none)
    (hadded : ∀ u, message = .reference u → ∃ group m v, u = .added group m v)
    (hunique : ∀ {m : Name} {v w : Value}, TakenIn (happened ++ [x]) l (m, v) →
      TakenIn (happened ++ [x]) l (m, w) → v = w) (p : Name × Value) :
    (roster.replay (b.plan.changes l [message])).members[p.1]? = some p.2 ↔
      p.2.type = (roster.replay (b.plan.changes l [message])).type ∧
        TakenIn (happened ++ [x]) l p := by
  have htakes {p : Name × Value} := takesIn_iff (l := l) (p := p) hb hm hidle
  cases message with
  | lifecycle e =>
      rw [Plan.changes_lifecycle, Roster.replay, List.foldl_nil]
      exact h.rests hr (fun p htaken => by simpa using htakes.mp htaken) p
  | reference u =>
      obtain ⟨group, m, v, rfl⟩ := hadded u rfl
      have hmessage {p : Name × Value} {group' : Name} : Message.reference (.added group m v) =
          .reference (.added group' p.1 p.2) ↔ group = group' ∧ p = (m, v) := by
        simp [Prod.ext_iff, eq_comm]
      rw [Plan.changes_reference, GroupUpdate.group]
      split
      · next hl =>
          rw [Roster.replay, List.foldl_cons, List.foldl_nil, Roster.after_type]
          have hnow (p) : (initial.run happened).TakesIn x l p ↔ p = (m, v) := by
            rw [htakes]
            constructor
            · rintro ⟨group', -, htold⟩
              exact (hmessage.mp htold).2
            · exact fun hp => ⟨group, hl, hmessage.mpr ⟨rfl, hp⟩⟩
          exact h.joins hr hnow
            (fun hw => hunique hw (takenIn_snoc.mpr (.inr ((hnow _).mpr rfl)))) p
      · next hl =>
          rw [Roster.replay, List.foldl_nil]
          refine h.rests hr (fun p htaken => hl ?_) p
          obtain ⟨group', hl', htold⟩ := htakes.mp htaken
          exact (hmessage.mp htold).1 ▸ hl'

/-- One step more, while services are installed. -/
theorem Showing.step (hshow : Showing happened) (h : OnlyInstalls happened)
    (hf : Fits type (installRequests happened)) (h' : OnlyInstalls (happened ++ [x]))
    (hf' : Fits type (installRequests (happened ++ [x]))) : Showing (happened ++ [x]) := by
  intro l roster' hr' p
  have ho := orderly_run h.not_cancel
  have hx : x ≠ .cancel := h'.not_cancel x (by simp)
  have hhandled := ho.handled (step_apply ho.uncancelled hx) rfl
  rw [run_snoc] at hr'
  have hroster := Cells.roster?_of_getElem? hr'
  cases hcell : (initial.run happened).world.cells[l]? with
  | none =>
      have hno : l ∉ (initial.run happened).world.cells := by
        rw [Std.ExtTreeMap.mem_iff_isSome_getElem?, hcell]
        simp
      have hempty := hhandled.members_eq_empty hno fun hc hl => hno (h.bound hf hc hl)
      rw [Cells.members_of_roster hroster] at hempty
      refine iff_of_false (by simp [hempty]) fun hin => ?_
      rcases takenIn_snoc.mp hin.2 with ⟨i, c, group, hc, hl, -⟩ | ⟨i, c, group, hc, hl, -⟩
      all_goals exact hno (h.bound hf hc (Plan.mem_rosters.mpr ⟨group, hl⟩))
  | some cell =>
      cases cell with
      | slot slot =>
          have hslot : (initial.run happened).world.cells.slot? l = some slot := by
            rw [Cells.slot?, hcell]
          simp [hhandled.slot? hslot] at hroster
      | roster roster =>
          have hkeep : ∀ {j : Nat} {c' : Controller},
              ((initial.run happened).apply x).controllers[j]? = some c' → c'.state ≠ .removed := by
            intro j c' hc' hremoved
            have hallows := ((h'.run hf').tame (run_snoc .. ▸ hc')).state
            simp [hremoved, Phase.Allows] at hallows
          cases replays_apply hcell x with
          | rests hidle hkept =>
              obtain rfl : roster = roster' := by simpa [hkept] using hr'
              exact hshow.rests hcell (fun p => not_takesIn_of_idle hidle) p
          | takes j b message hb hm hidle hreplays =>
              have hreplays := hreplays fun _ _ hc' => hkeep hc'
              obtain rfl : roster' = roster.replay (b.plan.changes l [message]) := by
                simpa [hreplays] using hr'.symm
              refine hshow.replays hcell hb hm hidle (fun u hu => ?_) (h'.takenIn_unique hf') p
              have hmem : u ∈ (initial.intake (happened ++ [x]) j).filterMap Message.update? := by
                simp [intake_snoc, hm, hu, Message.update?]
              obtain ⟨d, -, group, -, hadded⟩ := h'.told hf' (h'.told_of_intake hf' hmem)
              exact ⟨group, d.name, d.value, hadded⟩

/-- While services are installed, every roster shows those who were taken in for it. -/
theorem OnlyInstalls.showing (h : OnlyInstalls happened)
    (hf : Fits type (installRequests happened)) : Showing happened := by
  induction h with
  | opened origin =>
      intro l roster hr
      have hcells : (initial.run [.request origin .start]).world.cells = ∅ := rfl
      simp [hcells] at hr
  | went h hx ih =>
      have hbefore := hf
      rw [installRequests_went hx] at hbefore
      exact (ih hbefore).step h hbefore (h.went hx) hf
  | requested h origin d ih =>
      have hbefore := hf
      rw [installRequests_requested] at hbefore
      have hbefore := hbefore.sublist (List.sublist_append_left _ [d])
      exact (ih hbefore).step h hbefore (h.requested origin d) hf

end System

end ServiceHost
