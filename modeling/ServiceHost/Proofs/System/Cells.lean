import ServiceHost.Proofs.Declarations
import ServiceHost.Proofs.System.Replies

/-! # Whom the cells are touched by

Requests bring empty cells into being and touch no others; callbacks do no more than make requests.
So the cells there are change only when a controller begins a start, handles the end of a stop, or
takes in a change of a group. -/

namespace ServiceHost

/-- Nobody put anything into a cell. -/
def Cell.IsEmpty : Cell → Prop
  | .slot s => s.content = none
  | .roster r => r.members = ∅

namespace Cells

/-- What is in the slot under a label. -/
def content? (cells : Cells) (l : Label) : Option (Name × Value) := (cells.slot? l).bind Slot.content

/-- Who is on the roster under a label. -/
def members (cells : Cells) (l : Label) : Std.ExtTreeMap Name Value compare :=
  ((cells.roster? l).map Roster.members).getD ∅

/-- Empty cells come into being, and nothing else changes. -/
def Grows (cells cells' : Cells) : Prop :=
  ∀ l : Label, cells'[l]? = cells[l]? ∨
    (cells[l]? = none ∧ ∃ cell : Cell, cells'[l]? = some cell ∧ cell.IsEmpty)

variable {cells cells' cells'' : Cells} {l x : Label}

namespace Grows

theorem refl (cells : Cells) : Grows cells cells := fun _ => .inl rfl

theorem of_eq (h : cells' = cells) : Grows cells cells' := h ▸ refl cells

theorem trans (h : Grows cells cells') (h' : Grows cells' cells'') : Grows cells cells'' := by
  intro l
  rcases h l with he | ⟨hno, cell, hcell, hempty⟩
  · exact he ▸ h' l
  · rcases h' l with he' | ⟨hno', _⟩
    · exact .inr ⟨hno, cell, he'.trans hcell, hempty⟩
    · simp [hno'] at hcell

theorem mem (h : Grows cells cells') (hl : l ∈ cells) : l ∈ cells' := by
  rw [Std.ExtTreeMap.mem_iff_isSome_getElem?] at hl ⊢
  rcases h l with he | ⟨hno, _⟩
  · exact he ▸ hl
  · simp [hno] at hl

theorem content? (h : Grows cells cells') (l : Label) : cells'.content? l = cells.content? l := by
  rcases h l with he | ⟨hno, cell, hcell, hempty⟩
  · simp only [Cells.content?, slot?, he]
  · cases cell <;> simp_all [Cells.content?, slot?, Cell.IsEmpty]

theorem members (h : Grows cells cells') (l : Label) : cells'.members l = cells.members l := by
  rcases h l with he | ⟨hno, cell, hcell, hempty⟩
  · simp only [Cells.members, roster?, he]
  · cases cell <;> simp_all [Cells.members, roster?, Cell.IsEmpty]

/-- A label that stands for no roster stood for none before. -/
theorem roster?_eq_none (h : Grows cells cells') (hno : cells'.roster? l = none) :
    cells.roster? l = none := by
  rcases h l with he | ⟨hnone, _⟩
  · simpa only [roster?, he] using hno
  · simp [roster?, hnone]

end Grows

theorem grows_create {cell : Cell} (h : cell.IsEmpty) : Grows cells (cells.create x cell) := by
  intro l
  rw [create, Std.ExtTreeMap.getElem?_insertIfNew]
  split
  · next hx =>
      obtain ⟨hx, hno⟩ := hx
      obtain rfl := Std.LawfulEqCmp.eq_of_compare hx
      exact .inr ⟨Std.ExtTreeMap.getElem?_eq_none hno, cell, rfl, h⟩
  · exact .inl rfl

theorem grows_createFor (cells : Cells) (d : Service) : Grows cells (cells.createFor d) := by
  have hfold : ∀ {β : Type} (label : β → Label) (cell : β → Cell), (∀ b, (cell b).IsEmpty) →
      ∀ (bindings : List β) (cells : Cells),
        Grows cells (bindings.foldl (fun cells b => cells.create (label b) (cell b)) cells) := by
    intro β label cell hempty bindings
    induction bindings with
    | nil => exact Grows.refl
    | cons b rest ih => exact fun cells => (grows_create (hempty b)).trans (ih _)
  exact (hfold SlotBinding.label (fun b => .slot (.empty b.type)) (fun _ => rfl) d.slots cells).trans
    (hfold RosterBinding.label (fun r => .roster (.empty r.type r.handlers)) (fun _ => rfl) _ _)

end Cells

/-! ## Requests -/

/-- What is known of every plan that is asked for: its slots exist, it depends on what they are
bound to, and the plan of a composite has none. -/
structure Plan.Ready (p : Plan) (cells : Cells) : Prop where
  bound : ∀ {l}, p.Binds l → l ∈ cells
  needed : ∀ {d l}, l ∈ p.slotsOf d → d ∈ p.dependencies
  unit : ∀ {children}, p.conduct = .composite children →
    p.value = .unit ∧ (∀ l, ¬p.Binds l) ∧ ∀ child ∈ children, child ∈ p.dependencies

/-- A request asks for a plan that is ready, if it asks for one. -/
def Request.Ready (cells : Cells) (r : Request) : Prop :=
  ∀ (plan : Plan) (ticket : Ticket), r = .install plan ticket → plan.Ready cells

variable {cells cells' : Cells}

theorem Plan.Ready.mono {p : Plan} (h : p.Ready cells) (hmem : ∀ l, l ∈ cells → l ∈ cells') :
    p.Ready cells' :=
  ⟨fun hl => hmem _ (h.bound hl), h.needed, h.unit⟩

theorem Declaration.ready (d : Service) (scope : Option Name) :
    (d.plan scope).Ready (cells.createFor d) where
  bound := by
    rintro l ⟨e, hl⟩
    obtain ⟨b, hb, _, rfl⟩ := (d.mem_plan_slotsOf scope).mp hl
    exact Cells.mem_createFor.mpr (.inr (.inl ⟨b, hb, rfl⟩))
  needed := by
    intro e l hl
    obtain ⟨b, hb, rfl, _⟩ := (d.mem_plan_slotsOf scope).mp hl
    exact (d.mem_plan_dependencies_or scope).mpr (.inr (.inr ⟨b, hb, rfl⟩))
  unit := by
    intro children hc
    rw [d.plan_conduct] at hc
    unfold Declaration.conduct at hc
    split at hc <;> cases hc

theorem CompositeDeclaration.ready (c : Composite) (scope : Option Name) :
    (c.plan scope).Ready cells := by
  have hslots : ∀ l, ¬(c.plan scope).Binds l := by
    rintro l ⟨d, hl⟩
    rw [CompositeDeclaration.plan, Plan.foldl_eq (fun p => p.slotsOf d) (by intros; rfl)] at hl
    simp [Plan.bare, Plan.slotsOf] at hl
  refine ⟨fun hl => absurd hl (hslots _), fun hl => absurd ⟨_, hl⟩ (hslots _), fun hc => ?_⟩
  refine ⟨?_, hslots, fun child hchild => ?_⟩
  · rw [CompositeDeclaration.plan, Plan.foldl_eq Plan.value (by intros; rfl)]
    rfl
  · rw [CompositeDeclaration.plan, Plan.foldl_eq Plan.conduct (by intros; rfl)] at hc
    injection hc with hc
    rw [CompositeDeclaration.plan, Plan.mem_dependOn_foldl]
    exact .inr (List.mem_append_right _ (hc ▸ hchild))

theorem Request.Ready.mono {r : Request} (h : r.Ready cells) (hmem : ∀ l, l ∈ cells → l ∈ cells') :
    r.Ready cells' :=
  fun plan ticket he => (h plan ticket he).mono hmem

/-! ## Callbacks -/

/-- A callback went on: empty cells came into being, and whatever it asked for is ready. -/
structure Progress.Prepares (p p' : Progress) : Prop where
  cells : p.world.cells.Grows p'.world.cells
  requests : ∀ r ∈ p'.requests, r ∈ p.requests ∨ r.Ready p'.world.cells

namespace Progress

variable {p p' p'' : Progress}

theorem Prepares.of_eq (hr : p'.requests = p.requests) (hw : p'.world.cells = p.world.cells) :
    p.Prepares p' :=
  ⟨.of_eq hw, fun _ h => .inl (hr ▸ h)⟩

theorem Prepares.trans (h : p.Prepares p') (h' : p'.Prepares p'') : p.Prepares p'' := by
  refine ⟨h.cells.trans h'.cells, fun r hr => ?_⟩
  rcases h'.requests r hr with hr | hr
  · exact (h.requests r hr).imp_right fun hr => hr.mono fun _ => h'.cells.mem
  · exact .inr hr

theorem prepares_ask (p : Progress) (subject : Option Subject) {request : Ticket → Request}
    (h : ∀ t, (request t).Ready p.world.cells) : p.Prepares (p.ask subject request).2 := by
  refine ⟨.refl _, fun r hr => ?_⟩
  rcases List.mem_append.mp hr with hr | hr
  · exact .inl hr
  · exact .inr (List.mem_singleton.mp hr ▸ h _)

theorem prepares_install (p : Progress) (origin : Origin) (scope : Option Name) (d : Service) :
    p.Prepares (p.install origin scope d) := by
  have h : p.Prepares { p with world := { p.world with cells := p.world.cells.createFor d } } :=
    ⟨Cells.grows_createFor _ d, fun _ hr => .inl hr⟩
  refine h.trans (prepares_ask _ _ fun t plan ticket he => ?_)
  injection he with hplan
  exact hplan ▸ d.ready scope

theorem Acts.prepares (h : p.Acts p') : p.Prepares p' := by
  cases h with
  | record => exact .of_eq rfl rfl
  | defer h =>
      obtain ⟨_, rfl⟩ := defer_eq_ok h
      exact .of_eq rfl rfl
  | remove => exact prepares_ask _ _ fun t plan ticket he => by cases he
  | install origin scope d => exact prepares_install p origin scope d
  | composite _ scope c =>
      refine prepares_ask _ _ fun t plan ticket he => ?_
      injection he with hplan
      exact hplan ▸ c.ready scope

/-- It only makes requests. -/
theorem GoesOn.prepares (h : p.GoesOn p') : p.Prepares p' := by
  induction h with
  | refl => exact .of_eq rfl rfl
  | tail _ ha ih => exact ih.trans ha.prepares

end Progress

theorem Performs.prepares {c : Context} {p : Progress} {result : Progress × Halt}
    (h : Performs c p result) : p.Prepares result.1 := by
  induction h with
  | goesOn h _ ih => exact h.prepares.trans ih
  | returned | sleeps => exact .of_eq rfl rfl
  | waits p awaited rest =>
      show p.Prepares (p.ask none awaited.request).2
      refine Progress.prepares_ask p none fun t plan ticket he => ?_
      cases awaited <;> cases he

/-! ## Turns -/

namespace Turn

/-- A turn goes on without touching a cell that is there: its controller is bound to the same cells
and holds as many of them, and whatever it asks for is ready. -/
structure Spares (t t' : Turn) : Prop where
  plan : t'.controller.plan = t.controller.plan
  resolved : t'.controller.resolved = t.controller.resolved
  cells : t.world.cells.Grows t'.world.cells
  requests : ∀ r ∈ t'.requests, r ∈ t.requests ∨ r.Ready t'.world.cells

variable {t t' t'' : Turn}

namespace Spares

theorem of_eq (hp : t'.controller.plan = t.controller.plan)
    (hres : t'.controller.resolved = t.controller.resolved)
    (hcells : t'.world.cells = t.world.cells) (hreq : t'.requests = t.requests) : t.Spares t' :=
  ⟨hp, hres, .of_eq hcells, fun _ h => .inl (hreq ▸ h)⟩

theorem refl (t : Turn) : t.Spares t := of_eq rfl rfl rfl rfl

theorem trans (h : t.Spares t') (h' : t'.Spares t'') : t.Spares t'' := by
  refine ⟨h'.plan.trans h.plan, h'.resolved.trans h.resolved, h.cells.trans h'.cells, fun r hr => ?_⟩
  rcases h'.requests r hr with hr | hr
  · exact (h.requests r hr).imp_right fun hr => hr.mono fun _ => h'.cells.mem
  · exact .inr hr

/-- What no cell notices may come before. -/
theorem of_begun (h : t'.Spares t'') (hp : t'.controller.plan = t.controller.plan)
    (hres : t'.controller.resolved = t.controller.resolved)
    (hcells : t'.world.cells = t.world.cells) (hreq : t'.requests = t.requests) : t.Spares t'' :=
  (of_eq hp hres hcells hreq).trans h

end Spares

theorem spares_emit (t : Turn) (e : Event) : t.Spares (t.emit e) := .of_eq rfl rfl rfl rfl

theorem spares_answerInstall (t : Turn) (outcome : Except Error Answer) :
    t.Spares (t.answerInstall outcome) := by
  have hcells := answerInstall_cells t outcome
  unfold answerInstall at hcells ⊢
  split
  · exact .refl t
  · exact .of_eq rfl rfl (settle_cells _ _ _) rfl

theorem spares_completeStart (t : Turn) : t.Spares t.completeStart := by
  unfold completeStart
  refine Spares.trans ?_ (spares_answerInstall _ _)
  split
  · exact .of_eq rfl rfl rfl rfl
  · exact .refl t

theorem spares_failStart (t : Turn) (why : StartAbort) (event : Event) :
    t.Spares (t.failStart why event) := by
  unfold failStart
  dsimp only
  split
  · exact (spares_answerInstall _ _).of_begun rfl rfl rfl rfl
  · exact spares_answerInstall t _
  · exact spares_answerInstall t _

theorem spares_conclude (t : Turn) (phase : Phase) (work : Option Completion) (interruptible : Bool)
    (outcome : Except Failure Unit) : t.Spares (t.conclude phase work interruptible outcome) := by
  unfold conclude
  split <;> exact .of_eq rfl rfl rfl rfl

theorem spares_settleCallback (t : Turn) (context : Context) {result : Progress × Halt}
    {p : Progress} (hr : p.requests = []) (hw : p.world.cells = t.world.cells)
    (h : p.Prepares result.1) : t.Spares (t.settleCallback context result) := by
  obtain ⟨p', halt⟩ := result
  have hp : t.Spares { t with world := p'.world, requests := t.requests ++ p'.requests } := by
    refine ⟨rfl, rfl, hw ▸ h.cells, fun r hmem => ?_⟩
    rcases List.mem_append.mp hmem with hmem | hmem
    · exact .inl hmem
    · exact .inr ((h.requests r hmem).resolve_left (by simp [hr]))
  cases halt with
  | waiting wait rest => exact hp.trans (.of_eq rfl rfl rfl rfl)
  | returned outcome =>
      exact hp.trans ((spares_conclude _ _ _ _ _).of_begun rfl rfl rfl rfl)

theorem spares_call (t : Turn) (id : Nat) (phase : Phase) (interrupted : Bool) (note : Note)
    (actions : List Action) : t.Spares (t.call id phase interrupted note actions) :=
  spares_settleCallback t _ (p := .begin (t.world.record t.controller.name note)) rfl rfl
    (performs_perform _ _ _).prepares

theorem spares_callStart (t : Turn) (id : Nat) : t.Spares (t.callStart id) := by
  unfold callStart
  split
  · exact spares_conclude t _ _ _ _
  · exact spares_conclude t _ _ _ _
  · dsimp only
    split
    · exact (spares_conclude _ _ _ _ _).of_begun rfl rfl rfl rfl
    · exact spares_call t id _ _ _ _

theorem spares_callStop (t : Turn) (id : Nat) (interrupted : Bool) :
    t.Spares (t.callStop id interrupted) := by
  unfold callStop
  split
  · exact spares_conclude t _ _ _ _
  · next children _ =>
      have hask : ∀ (l : List Name) (p : Progress),
          p.Prepares (l.foldl (fun p child => (p.ask none (.remove child)).2) p) := by
        intro l
        induction l with
        | nil => exact fun p => .of_eq rfl rfl
        | cons child l ih =>
            exact fun p => (Progress.prepares_ask p none fun t plan ticket he => by cases he).trans
              (ih _)
      have h := hask children (.begin t.world)
      generalize children.foldl (fun p child => (p.ask none (.remove child)).2)
        (Progress.begin t.world) = p at h ⊢
      have hp : t.Spares { t with world := p.world, requests := t.requests ++ p.requests } := by
        refine ⟨rfl, rfl, h.cells, fun r hr => ?_⟩
        rcases List.mem_append.mp hr with hr | hr
        · exact .inl hr
        · exact .inr ((h.requests r hr).resolve_left (by simp [Progress.begin]))
      exact hp.trans (spares_conclude _ _ _ _ _)
  · exact spares_call t id _ _ _ _

theorem spares_invokeStop (t : Turn) (id : Nat) (interrupted : Bool) :
    t.Spares (t.invokeStop id interrupted) :=
  (spares_callStop _ id interrupted).of_begun rfl rfl rfl rfl

theorem spares_report (t : Turn) (value : Option Value) : t.Spares (t.report value) :=
  .of_eq rfl rfl rfl rfl

/-- Only two effects concern cells. -/
theorem spares_carryOut (t : Turn) (id : Nat) (e : Event) {effect : Effect}
    (hs : effect ≠ .injectAndStart) (hr : effect ≠ .releaseInjected) :
    t.Spares (carryOut id e t effect) := by
  cases effect with
  | injectAndStart => exact absurd rfl hs
  | releaseInjected => exact absurd rfl hr
  | completeStart => exact spares_completeStart t
  | failStart why => exact spares_failStart t why e
  | invokeStop interrupted => exact spares_invokeStop t id interrupted
  | emitStopped => exact spares_emit t _
  | emitRemoved => exact spares_emit t _
  | terminate => exact .of_eq rfl rfl rfl rfl

theorem spares_foldl (t : Turn) (id : Nat) (e : Event) {effects : List Effect}
    (hs : .injectAndStart ∉ effects) (hr : .releaseInjected ∉ effects) :
    t.Spares (effects.foldl (carryOut id e) t) := by
  induction effects generalizing t with
  | nil => exact .refl t
  | cons effect rest ih =>
      rw [List.mem_cons, not_or] at hs hr
      exact (spares_carryOut t id e (Ne.symm hs.1) (Ne.symm hr.1)).trans (ih _ hs.2 hr.2)

end Turn

/-! ## Taking a message -/

/-- The cells once those a plan binds are emptied: the slots of the dependencies that were resolved,
and all the rosters. -/
def Plan.release (p : Plan) (resolved : List Name) (cells : Cells) : Cells :=
  p.rosters.values.foldl Cells.clearRoster ((resolved.flatMap p.slotsOf).foldl Cells.clearSlot cells)

/-- A change of a group touches no slot, and no roster but one the plan binds to the group. Nobody
gets onto a roster by leaving the group. -/
structure Plan.Updates (p : Plan) (u : GroupUpdate) (cells cells' : Cells) : Prop where
  slots : Cells.Frame (fun _ => False) cells cells'
  others : ∀ {l}, l ∉ p.rosters.values → cells'.members l = cells.members l
  left : ∀ {g m l}, u = .removed g m → cells.members l = ∅ → cells'.members l = ∅

/-- What a controller itself makes of the cells and of the list of what was delivered, when it takes
a message. -/
inductive Controller.Handles (c : Controller) (cells : Cells) : Cells → List Name → Prop
  | spares (hs : .injectAndStart ∉ c.effects) (hr : .releaseInjected ∉ c.effects) :
    Handles c cells cells c.resolved
  | updates {u : GroupUpdate} {rest : List Message} {cells' : Cells}
    (hi : c.inbox = .reference u :: rest) (h : c.plan.Updates u cells cells') :
    Handles c cells cells' c.resolved
  | fills {values : List (Name × Value)} {rest : List Message}
    (hi : c.inbox = .lifecycle (.dependenciesAvailable values) :: rest) (hw : c.state = .waiting) :
    Handles c cells (Turn.inject c.plan cells values).1 (values.map Prod.fst)
  | releases {rest : List Message} (hi : c.inbox = .lifecycle .stopped :: rest)
    (hs : c.state = .stopping) : Handles c cells (c.plan.release c.resolved cells) []

theorem Cells.members_insert (cells : Cells) (l : Label) (roster : Roster) (x : Label) :
    Cells.members (cells.insert l (.roster roster)) x =
      if l = x then roster.members else cells.members x := by
  simp only [Cells.members, roster?, Std.ExtTreeMap.getElem?_insert,
    Std.LawfulEqCmp.compare_eq_iff_eq]
  by_cases hx : l = x <;> simp [hx]

theorem Cells.members_of_roster {l : Label} {roster : Roster} (h : cells.roster? l = some roster) :
    cells.members l = roster.members := by
  simp [Cells.members, h]

open Std in
/-- The labels of the rosters of a plan. -/
theorem Plan.mem_rosters {p : Plan} {l : Label} :
    l ∈ p.rosters.values ↔ ∃ group : Name, p.rosters[group]? = some l := by
  simp [values_eq_map, ExtTreeMap.mem_toList_iff_getElem?_eq_some]

theorem Cells.members_addMember (w : World) (label : Label) (group member : Name) (value : Value)
    {l : Label} (hl : label ≠ l) :
    (w.addMember label group member value).cells.members l = w.cells.members l := by
  unfold World.addMember
  split
  · rfl
  · split
    · rw [recordCalls_cells, Cells.members_insert, if_neg hl]
    · rfl

theorem Cells.members_removeMember (w : World) (label : Label) (member : Name) {l : Label}
    (h : label ≠ l ∨ w.cells.members l = ∅) :
    (w.removeMember label member).cells.members l = w.cells.members l := by
  unfold World.removeMember
  split
  · rfl
  · next roster hroster =>
      dsimp only
      rw [recordCalls_cells, Cells.members_insert]
      split
      · next hl =>
          subst hl
          have hnobody := h.resolve_left (by simp)
          rw [Cells.members_of_roster hroster] at hnobody ⊢
          simp [Roster.remove, hnobody]
      · rfl

namespace Turn

theorem updates_onUpdate (t : Turn) (u : GroupUpdate) :
    t.controller.plan.Updates u t.world.cells (t.onUpdate u).world.cells := by
  have hne : ∀ {group : Name} {label l : Label}, t.controller.plan.rosters[group]? = some label →
      l ∉ t.controller.plan.rosters.values → label ≠ l := by
    rintro group label l h hl rfl
    exact hl (Plan.mem_rosters.mpr ⟨group, h⟩)
  refine ⟨frame_onUpdate t u, fun {l} hl => ?_, ?_⟩
  · cases u with
    | added group member value =>
        simp only [onUpdate]
        split
        · rfl
        · next h => exact Cells.members_addMember _ _ _ _ _ (hne h hl)
    | removed group member =>
        simp only [onUpdate]
        split
        · rfl
        · next h => exact Cells.members_removeMember _ _ _ (.inl (hne h hl))
  · rintro g m l rfl hnobody
    simp only [onUpdate]
    split
    · exact hnobody
    · exact (Cells.members_removeMember _ _ _ (.inr hnobody)).trans hnobody

end Turn

namespace Controller

variable {c : Controller}

/-- A move that touches no cell any more, once the controller has done with them what it does. -/
theorem handles_move {e : Event} {rest : List Message} {next : State} {l : List Effect} {id : Nat}
    {w : World} {t : Turn} {resolved : List Name} (hi : c.inbox = .lifecycle e :: rest)
    (hm : Moves c.interruptible c.state e.signal next l)
    (hh : c.Handles w.cells t.world.cells resolved) (hres : t.controller.resolved = resolved)
    (hreq : t.requests = [])
    (hspares : t.Spares
      (l.foldl (Turn.carryOut id e) (.begin w { c with inbox := rest, state := next }))) :
    ∃ cells, c.Handles w.cells cells (c.take id w).controller.resolved ∧
      cells.Grows (c.take id w).world.cells ∧
      ∀ r ∈ (c.take id w).requests, r.Ready (c.take id w).world.cells := by
  have hfinal : t.Spares (c.take id w) := by
    rw [take_eq hi hm]
    dsimp only
    split
    · exact hspares
    · exact hspares.trans (Turn.spares_report _ _)
  refine ⟨t.world.cells, ?_, hfinal.cells, fun r hr => ?_⟩
  · rw [hfinal.resolved, hres]
    exact hh
  · exact (hfinal.requests r hr).resolve_left (by simp [hreq])

/-- What a controller that takes a message makes of the cells, before its callback is run. -/
theorem handles_take (h : c.canTake = true) (id : Nat) (w : World) :
    ∃ cells, c.Handles w.cells cells (c.take id w).controller.resolved ∧
      cells.Grows (c.take id w).world.cells ∧
      ∀ r ∈ (c.take id w).requests, r.Ready (c.take id w).world.cells := by
  simp only [canTake, Bool.and_eq_true, Bool.not_eq_true', Option.isNone_iff_eq_none,
    List.isEmpty_eq_false_iff] at h
  obtain ⟨message, rest, hi⟩ := List.exists_cons_of_ne_nil h.2
  cases message with
  | reference u =>
      obtain ⟨hcontroller, _, _, hrequests, _⟩ := take_reference hi id w
      have hu := Turn.updates_onUpdate (.begin w { c with inbox := rest }) u
      have htake : c.take id w = (Turn.begin w { c with inbox := rest }).onUpdate u := by
        simp only [take, hi]
      refine ⟨_, ?_, .refl _, by simp [hrequests]⟩
      rw [hcontroller, htake]
      exact .updates hi hu
  | lifecycle e =>
      cases ht : transition c.state e.signal c.interruptible with
      | none =>
          have htake : c.take id w = Turn.begin w { c with inbox := rest } := by
            simp [take, hi, Turn.onEvent, Turn.begin, ht]
          have heffects : c.effects = [] := by simp [effects, hi, State.effects, ht]
          rw [htake]
          exact ⟨w.cells, .spares (by simp [heffects]) (by simp [heffects]), .refl _,
            by simp [Turn.begin]⟩
      | some move =>
          obtain ⟨next, l⟩ := move
          have hm := transition_eq_some_iff.mp ht
          have heffects : c.effects = l := by simp [effects, hi, State.effects, ht]
          have hspared (hs : .injectAndStart ∉ l) (hr : .releaseInjected ∉ l) :=
            handles_move (t := .begin w { c with inbox := rest, state := next }) hi hm
              (.spares (heffects ▸ hs) (heffects ▸ hr)) rfl rfl (Turn.spares_foldl _ id e hs hr)
          generalize hstate : c.state = state at hm
          generalize hsignal : e.signal = x at hm
          cases hm with
          | start =>
              cases e with
              | dependenciesAvailable values =>
                  let t : Turn := { Turn.begin w { c with inbox := rest, state := .starting false } with
                    world := { w with cells := (Turn.inject c.plan w.cells values).1 }
                    controller := { c with
                      inbox := rest, state := .starting false, resolved := values.map Prod.fst } }
                  refine handles_move (t := t) hi (transition_eq_some_iff.mp ht)
                    (.fills hi hstate) rfl rfl ?_
                  simp only [List.foldl_cons, List.foldl_nil, Turn.carryOut, Turn.injectAndStart]
                  split
                  · exact Turn.spares_callStart t id
                  · exact Turn.spares_emit t _
              | _ => cases hsignal
          | vanish =>
              cases e with
              | stopped =>
                  exact handles_move (t := (Turn.begin w { c with
                    inbox := rest, state := .removed }).releaseInjected) hi
                    (transition_eq_some_iff.mp ht) (.releases hi hstate) rfl rfl
                    (Turn.spares_emit _ _)
              | _ => cases hsignal
          | _ => exact hspared (by simp) (by simp)

/-- A callback that goes on touches no cell. -/
theorem spares_resume (c : Controller) (id : Nat) (w : World) :
    (Turn.begin w c).Spares (c.resume id w) := by
  unfold resume
  split
  · exact .refl _
  · next callback answer _ =>
      have h := Turn.spares_settleCallback (.begin w c)
        { service := c.name, id, phase := callback.phase, interrupted := callback.interrupted }
        rfl rfl (performs_carryOn { service := c.name, id, phase := callback.phase
                                    interrupted := callback.interrupted } callback.rest
          { Progress.begin w with
            deferred := callback.deferred, interruptible := callback.interruptible }
          answer).prepares
      dsimp only
      split
      · exact h
      · exact h.trans (Turn.spares_report _ _)

end Controller

theorem Controller.Handles.frame {c : Controller} {cells cells' : Cells} {resolved : List Name}
    (h : c.Handles cells cells' resolved) : Cells.Frame c.plan.Binds cells cells' := by
  cases h with
  | spares hs hr => exact .refl _ _
  | updates hi h => exact h.slots.mono fun _ => False.elim
  | fills hi hw => exact Turn.frame_inject _ _ _
  | releases hi hs => exact Turn.frame_releaseInjected (.begin { World.initial with cells } c)

/-! ## Whole steps -/

namespace System

variable {s s' : System} {x : Stimulus}

/-- A request from outside makes cells and touches none, and what is asked for is ready. -/
theorem operate_prepares (s : System) (origin : Origin) (o : Operation) :
    s.world.cells.Grows (s.operate origin o).2.world.cells ∧
      ∀ r ∈ (s.operate origin o).2.container.inbox,
        r ∈ s.container.inbox ∨ r.Ready (s.operate origin o).2.world.cells := by
  have hsubmit : ∀ {p : Progress}, (Progress.begin s.world).Prepares p →
      s.world.cells.Grows ({ s with world := p.world }.sendAll p.requests).world.cells ∧
        ∀ r ∈ ({ s with world := p.world }.sendAll p.requests).container.inbox,
          r ∈ s.container.inbox ∨
            r.Ready ({ s with world := p.world }.sendAll p.requests).world.cells := by
    intro p h
    rw [sendAll_cells, (sends_sendAll { s with world := p.world } p.requests).container]
    refine ⟨h.cells, fun r hr => ?_⟩
    unfold Container.sent at hr
    split at hr
    · refine (List.mem_append.mp hr).imp_right fun hr => ?_
      exact (h.requests r hr).resolve_left (by simp [Progress.begin])
    · exact .inl hr
  have hask : ∀ (subject : Option Subject) {request : Ticket → Request},
      (∀ t, (request t).Ready s.world.cells) →
      s.world.cells.Grows (s.ask subject request).2.world.cells ∧
        ∀ r ∈ (s.ask subject request).2.container.inbox,
          r ∈ s.container.inbox ∨ r.Ready (s.ask subject request).2.world.cells :=
    fun subject request h => hsubmit (Progress.prepares_ask (.begin s.world) subject h)
  cases o with
  | start =>
      rcases s.operate_start_cases origin with heq | ⟨_, line, heq⟩ <;> rw [heq]
      · exact ⟨.refl _, fun r hr => .inl hr⟩
      · simpa [log, World.log] using ⟨Cells.Grows.refl _, fun r hr => .inl hr⟩
  | install d => exact hsubmit (Progress.prepares_install _ _ _ d)
  | composite c => exact hsubmit (Progress.goesOn_installComposite _ _ _ c).prepares
  | compositeAlone c => exact hsubmit (Progress.Acts.composite _ _ _ c).prepares
  | remove name | has name | state name | text | close | closeInTime | textOfRest =>
      exact hask _ fun t plan ticket he => by cases he

/-- What a step makes of the cells: a controller takes a message, which moves it on, or no
controller does and no cell is touched. -/
inductive Handled (s : System) (x : Stimulus) (s' : System) : Prop
  | takes {i : Nat} {c c' : Controller} {cells : Cells} (hx : x = .move (.take i))
    (hc : s.controllers[i]? = some c) (hcan : c.canTake = true)
    (hcontrollers : s'.controllers = s.controllers.set i c')
    (hfinal : c' = (c.take i s.world).final s.tasks.length) (hplan : c'.plan = c.plan)
    (ha : c.state.Advances c'.state c.effects)
    (h : c.Handles s.world.cells cells c'.resolved) (hgrows : cells.Grows s'.world.cells)
  | rests (hx : ∀ i, s.effects x i = []) (hgrows : s.world.cells.Grows s'.world.cells)
    (hkept : ∀ {i : Nat} {c : Controller}, s.controllers[i]? = some c →
      ∃ c', s'.controllers[i]? = some c' ∧ c.Rests c')
    (h : ∀ {i : Nat} {c' : Controller}, s'.controllers[i]? = some c' →
      (∃ c, s.controllers[i]? = some c ∧ c.Rests c') ∨
        (x = .move .receive ∧ s.controllers.length ≤ i ∧
          ∃ plan ticket messages, c' = (Controller.launch plan ticket).told messages))

/-- Either a controller takes a message, or cells come into being at most. -/
theorem Step.grows (hs : Step s x s') (happly : s.apply x = s') :
    (s.world.cells.Grows s'.world.cells ∧ ∀ i c, s.controllers[i]? = some c →
      x = .move (.take i) → c.canTake = false) ∨
      ∃ id c, x = .move (.take id) ∧ s.controllers[id]? = some c ∧ c.canTake = true ∧
        s' = s.applyTurn id (c.take id s.world) := by
  cases hs with
  | calm h hx =>
      refine .inl ⟨.of_eq h.cells, fun i c hc hi => ?_⟩
      simpa [canMove, hc] using hx i hi
  | opened origin hst h hw hcells => exact .inl ⟨.of_eq hcells, by simp⟩
  | asked origin operation requests w h =>
      exact .inl ⟨happly ▸ (operate_prepares s origin operation).1, by simp⟩
  | received r rest hserving hi => exact .inl ⟨.of_eq (receive_cells s), by simp⟩
  | finished hst hq => exact .inl ⟨.of_eq (finish_cells s), by simp⟩
  | took id c hc hcan => exact .inr ⟨id, c, rfl, hc, hcan, rfl⟩
  | resumed id c callback answer hc hwake =>
      refine .inl ⟨?_, by simp⟩
      rw [applyTurn_cells]
      exact (Controller.spares_resume c id s.world).cells
  | joined id t outcome h => exact .inl ⟨.of_eq h.cells, by simp⟩

theorem Orderly.handled (ho : s.Orderly) (hs : Step s x s') (happly : s.apply x = s') :
    s.Handled x s' := by
  rcases hs.grows happly with ⟨hgrows, hno⟩ | ⟨id, c, rfl, hc, hcan, rfl⟩
  · have hbefore : ∀ {i : Nat} {c' : Controller}, s'.controllers[i]? = some c' →
        (∃ c, s.controllers[i]? = some c ∧ c.Rests c') ∨
          (x = .move .receive ∧ s.controllers.length ≤ i ∧
            ∃ plan ticket messages, c' = (Controller.launch plan ticket).told messages) := by
      intro i c' hc'
      cases ho.becomes hs hc' with
      | rests hc hr _ => exact .inl ⟨_, hc, hr⟩
      | takes hx hc hcan _ => simp [hno i _ hc hx] at hcan
      | launched plan ticket messages hx hlen h =>
          exact .inr ⟨hx, hlen, plan, ticket, messages, h⟩
    refine .rests (fun i => ?_) hgrows (fun {i c} hc => ?_) hbefore
    · refine List.eq_nil_iff_forall_not_mem.mpr fun e he => ?_
      obtain ⟨c, hx, hc, hcan, _⟩ := take_of_effects he
      simp [hno i c hc hx] at hcan
    · have hi := (List.getElem?_eq_some_iff.mp hc).1
      have hc' := List.getElem?_eq_getElem (Nat.lt_of_lt_of_le hi (ho.supplying hs).length)
      rcases hbefore hc' with ⟨b, hb, hr⟩ | ⟨_, hlen, _⟩
      · obtain rfl := Option.some.inj (hc.symm.trans hb)
        exact ⟨_, hc', hr⟩
      · exact absurd hi (Nat.not_lt.mpr hlen)
  · obtain ⟨cells, hh, hgrows, _⟩ := Controller.handles_take hcan id s.world
    refine .takes rfl hc hcan (applies_applyTurn (List.getElem?_eq_some_iff.mp hc).1).controllers
      rfl (plan_take hcan id _ _) (advances_take hcan id _ _) ?_ (applyTurn_cells s id _ ▸ hgrows)
    rw [Controller.final_resolved]
    exact hh

/-! ## Whoever is installed was prepared for -/

theorem Handled.mem (h : s.Handled x s') {l : Label} (hl : l ∈ s.world.cells) :
    l ∈ s'.world.cells := by
  cases h with
  | takes hx hc hcan hcontrollers hfinal hplan ha hh hgrows => exact hgrows.mem (hh.frame.mem hl)
  | rests hx hgrows hkept h => exact hgrows.mem hl

/-- Whoever is there stays there, with the plan it has. -/
theorem Handled.kept (h : s.Handled x s') {i : Nat} {c : Controller}
    (hc : s.controllers[i]? = some c) :
    ∃ c', s'.controllers[i]? = some c' ∧ c'.plan = c.plan := by
  cases h with
  | @takes j b b' cells hx hb hcan hcontrollers hfinal hplan ha hh hgrows =>
      rw [hcontrollers, List.getElem?_set]
      by_cases hji : j = i
      · subst hji
        obtain rfl := Option.some.inj (hb.symm.trans hc)
        simpa [(List.getElem?_eq_some_iff.mp hc).1] using hplan
      · simpa [hji] using ⟨c, hc, rfl⟩
  | rests hx hgrows hkept h =>
      obtain ⟨c', hc', hr⟩ := hkept hc
      exact ⟨c', hc', hr.plan⟩

theorem Handled.plan (h : s.Handled x s') {i : Nat} {c c' : Controller}
    (hc : s.controllers[i]? = some c) (hc' : s'.controllers[i]? = some c') : c'.plan = c.plan := by
  obtain ⟨b, hb, hplan⟩ := h.kept hc
  exact Option.some.inj (hc'.symm.trans hb) ▸ hplan

/-- Whatever is installed or about to be is ready. -/
structure Ready (s : System) : Prop where
  plans : ∀ {i : Nat} {c : Controller}, s.controllers[i]? = some c → c.plan.Ready s.world.cells
  requests : ∀ r ∈ s.container.inbox, r.Ready s.world.cells

/-- What is left of the requests once one of them is carried out. -/
theorem Orderly.receive_inbox {r : Request} {rest : List Request} (h : s.Orderly)
    (hs : s.container.isServing = true) (hi : s.container.inbox = r :: rest) :
    s.receive.container.inbox = rest ∨
      (s.receive.container.inbox = [] ∧ s.receive.container.isServing = false) := by
  have hcancelled := (h.process hs hi).uncancelled
  obtain ⟨stage, graph, hc⟩ := process_container
    { s with container := { s.container with inbox := rest } } r
  unfold System.receive
  rw [hi]
  dsimp only
  split
  · rw [(unmoved_shutDown hcancelled).container]
    exact .inr ⟨rfl, by simp [Container.isServing]⟩
  · rw [hc]
    exact .inl rfl

theorem Ready.step (h : s.Ready) (ho : s.Orderly) (hs : Step s x s') (happly : s.apply x = s') :
    s'.Ready := by
  have hhandled := ho.handled hs happly
  have hold : ∀ r ∈ s.container.inbox, r.Ready s'.world.cells :=
    fun r hr => (h.requests r hr).mono fun _ => hhandled.mem
  have hsent : ∀ {out : List Request}, (∀ r ∈ out, r.Ready s'.world.cells) →
      ∀ r ∈ (s.container.sent out).inbox, r.Ready s'.world.cells := by
    intro out hout r hr
    unfold Container.sent at hr
    split at hr
    · exact (List.mem_append.mp hr).elim (hold r) (hout r)
    · exact hold r hr
  have hturn : ∀ {t : Turn}, (∀ r ∈ t.requests, r.Ready t.world.cells) →
      t.reported.toList.filterMap Request.ticket? = [] → s'.world.cells = t.world.cells →
      ∀ r ∈ t.requests ++ t.reported.toList, r.Ready s'.world.cells := by
    intro t hrequests hreported hcells r hr
    rw [hcells]
    refine (List.mem_append.mp hr).elim (hrequests r) fun hr plan ticket he => ?_
    simpa [he, Request.ticket?] using List.filterMap_eq_nil_iff.mp hreported r hr
  refine ⟨fun {i c'} hc' => ?_, ?_⟩
  · cases ho.becomes hs hc' with
    | rests hc hr _ => exact hr.plan ▸ (h.plans hc).mono fun _ => hhandled.mem
    | takes hx hc hcan hfinal =>
        rw [hfinal, plan_take hcan]
        exact (h.plans hc).mono fun _ => hhandled.mem
    | launched plan ticket messages hx hlen hlaunched =>
        subst hx
        obtain ⟨plan', ticket', rest, messages', hi, _, _, _, hc''⟩ :=
          launched_receive (List.getElem?_eq_some_iff.mp hc').1 hlen happly.symm
        obtain rfl := Option.some.inj (hc''.symm.trans hc')
        rw [Controller.told_plan]
        exact hold _ (hi ▸ List.mem_cons_self) plan' ticket' rfl
  · cases hs with
    | calm hcalm hx => exact hcalm.container ▸ hold
    | opened origin hst hu hw hcells => exact hu.container ▸ hold
    | asked origin operation requests w ha =>
        intro r hr
        rw [← happly] at hr hold ⊢
        exact ((operate_prepares s origin operation).2 r hr).elim (hold r) id
    | received r rest hserving hi =>
        intro q hq
        rcases ho.receive_inbox hserving hi with he | ⟨he, _⟩
        · exact hold q (hi ▸ List.mem_cons_of_mem _ (he ▸ hq))
        · simp [he] at hq
    | finished hst hq => exact (unmoved_finish s).container ▸ hold
    | took id c hc hcan =>
        have hid := (List.getElem?_eq_some_iff.mp hc).1
        obtain ⟨_, _, _, hrequests⟩ := Controller.handles_take hcan id s.world
        rw [(applies_applyTurn hid).container]
        exact hsent (hturn hrequests (Turn.pays_take hcan id s.world).reported (applyTurn_cells ..))
    | resumed id c callback answer hc hwake =>
        have hid := (List.getElem?_eq_some_iff.mp hc).1
        have hrequests := (Controller.spares_resume c id s.world).requests
        rw [(applies_applyTurn hid).container]
        exact hsent (hturn (fun r hr => (hrequests r hr).resolve_left (by simp [Turn.begin]))
          (Turn.pays_resume hwake id).reported (applyTurn_cells ..))
    | joined id t outcome hj => exact hj.container ▸ hold

theorem ready_run {happened : List Stimulus} (hx : ∀ x ∈ happened, x ≠ .cancel) :
    (initial.run happened).Ready := by
  refine run_induction (P := fun happened => (initial.run happened).Ready) ?_ ?_ hx
  · exact ⟨by simp [initial, run], by simp [initial, run, Container.fresh]⟩
  · exact fun ho hs h => h.step ho hs (run_snoc ..).symm

end System

end ServiceHost
