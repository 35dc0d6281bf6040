import ServiceHost.Proofs.Spoilt.Scripts
import ServiceHost.Proofs.Spoilt.Worlds

/-! # Callbacks that are spoilt

The actions of a callback are carried out alike, up to the point where a stop comes back: it may
fail then, if it has not asked to be complete later. -/

namespace ServiceHost

/-- A request, and the same one for a service whose stop is spoilt. -/
inductive Request.Spoils : Request → Request → Prop
  | same (request : Request) : Spoils request request
  | install {plan plan' : Plan} (h : plan.Spoils plan') (ticket : Ticket) :
    Spoils (.install plan ticket) (.install plan' ticket)

/-- The work a callback left; that of a stop may be spoilt. -/
inductive SpoilsLeft (phase : Phase) : Option Completion → Option Completion → Prop
  | same (left : Option Completion) : SpoilsLeft phase left left
  | work (hp : phase = .stop) {work work' : Completion} (h : work.Spoils work') :
    SpoilsLeft phase (some work) (some work')

/-- The actions that are left of a callback. The flag tells whether it has asked to be complete
later. -/
def Phase.SpoilsActions : Phase → Bool → List Action → List Action → Prop
  | .start, _ => SpoilsStart
  | .stop, deferred => SpoilsStop deferred

/-- How far a callback came, and one that is spoilt. -/
inductive Progress.Spoils (phase : Phase) (p : Progress) : Progress → Prop
  | mk {world : World} {requests : List Request} {deferred : Option Completion}
    (hw : p.world.Spoils world) (hr : List.Forall₂ Request.Spoils p.requests requests)
    (hd : SpoilsLeft phase p.deferred deferred) :
    Progress.Spoils phase p { p with world, requests, deferred }

/-- Why a callback is not carried on. A stop that comes back and left no work may fail. -/
inductive SpoilsHalt (phase : Phase) (left : Option Completion) : Halt → Halt → Prop
  | waiting (wait : Wait) {rest rest' : List Action}
    (h : phase.SpoilsActions left.isSome rest rest') :
    SpoilsHalt phase left (.waiting wait rest) (.waiting wait rest')
  | same (outcome : Except Failure Unit) :
    SpoilsHalt phase left (.returned outcome) (.returned outcome)
  | failed (hp : phase = .stop) (hl : left = none) (failure : Failure) :
    SpoilsHalt phase left (.returned (.ok ())) (.returned (.error failure))

/-- How far a callback came, and why it is not carried on. -/
structure SpoilsResult (phase : Phase) (r r' : Progress × Halt) : Prop where
  progress : r.1.Spoils phase r'.1
  halt : SpoilsHalt phase r.1.deferred r.2 r'.2

theorem SpoilsLeft.isSome {phase : Phase} {left left' : Option Completion}
    (h : SpoilsLeft phase left left') : left'.isSome = left.isSome := by
  cases h <;> rfl

namespace Progress.Spoils

variable {phase : Phase} {p p' : Progress}

theorem world (h : p.Spoils phase p') : p.world.Spoils p'.world := by
  obtain ⟨hw, -, -⟩ := h
  exact hw

theorem requests (h : p.Spoils phase p') : List.Forall₂ Request.Spoils p.requests p'.requests := by
  obtain ⟨-, hr, -⟩ := h
  exact hr

theorem deferred (h : p.Spoils phase p') : SpoilsLeft phase p.deferred p'.deferred := by
  obtain ⟨-, -, hd⟩ := h
  exact hd

theorem begin {w w' : World} (hw : w.Spoils w') : (begin w).Spoils phase (begin w') :=
  ⟨hw, .nil, .same none⟩

theorem withWorld (h : p.Spoils phase p') {w w' : World} (hw : w.Spoils w') :
    Progress.Spoils phase { p with world := w } { p' with world := w' } := by
  obtain ⟨-, hr, hd⟩ := h
  exact ⟨hw, hr, hd⟩

theorem record (h : p.Spoils phase p') (c : Context) {note note' : Note}
    (hn : note.Spoils note') : (p.record c note).Spoils phase (p'.record c note') :=
  h.withWorld (h.world.record hn c.service)

/-- What is asked for is asked for with the same ticket. -/
theorem ask (h : p.Spoils phase p') (subject : Option Subject) {request request' : Ticket → Request}
    (hr : ∀ t, (request t).Spoils (request' t)) :
    (p'.ask subject request').1 = (p.ask subject request).1 ∧
      (p.ask subject request).2.Spoils phase (p'.ask subject request').2 := by
  obtain ⟨⟨hj, hl⟩, hrs, hd⟩ := h
  exact ⟨rfl, ⟨hj, hl⟩, List.rel_append hrs (.cons (hr _) .nil), hd⟩

theorem install (h : p.Spoils phase p') (origin : Origin) (scope : Option Name)
    {service service' : Service} (hs : SpoilsService service service') :
    (p.install origin scope service).Spoils phase (p'.install origin scope service') := by
  have hcells := h.withWorld (h.world.withCells (p.world.cells.createFor service))
  simp only [Progress.install, hs.forget, hs.name, hs.createFor, h.world.cells]
  exact (hcells.ask _ fun t => .install (hs.plan scope) t).2

theorem installComposite (h : p.Spoils phase p') (origin : Origin) (scope : Option Name)
    (unit : Composite) {children : List Child} (hc : SpoilsChildren unit.children children) :
    (p.installComposite origin scope unit).Spoils phase
      (p'.installComposite origin scope { unit with children }) := by
  have hservices := hc.services unit.name
  simp only [Progress.installComposite, Progress.installAlone, hc.plan scope,
    CompositeDeclaration.services]
  refine (ask ?_ _ fun t => .same _).2
  generalize unit.children.map (·.named unit.name) = services at hservices
  generalize children.map (·.named unit.name) = services' at hservices
  induction hservices generalizing p p' with
  | nil => exact h
  | cons hs _ ih => exact ih (h.install origin none hs)

end Progress.Spoils

theorem SpoilsChildren.refl (children : List Child) : SpoilsChildren children children := by
  induction children with
  | nil => exact .nil
  | cons child children ih => exact .cons child.suffix (.same child.service) ih

/-! ## Actions -/

section Actions

variable {c : Context} {rest rest' : List Action} {p p' : Progress}

/-- Completion is deferred alike, or refused alike. -/
theorem spoils_deferThen {work work' : Completion} (hw : work.Spoils work')
    (hstart : c.phase = .start → work' = work) (interruptible catching : Bool)
    {goOn goOn' : Progress → Progress × Halt}
    (ih : ∀ {p p' : Progress}, p.Spoils c.phase p' → p.deferred.isSome = true →
      SpoilsResult c.phase (goOn p) (goOn' p'))
    (hp : p.Spoils c.phase p') : SpoilsResult c.phase
      (deferThen goOn c work interruptible catching p)
      (deferThen goOn' c work' interruptible catching p') := by
  have hisSome := hp.deferred.isSome
  simp only [deferThen, Progress.defer, hisSome]
  by_cases hd : p.deferred.isSome = true
  · simp only [hd, if_true]
    split
    · exact ih (hp.record c (.same _)) hd
    · exact ⟨hp.record c (.same _), .same _⟩
  · simp only [hd, if_false, Bool.false_eq_true]
    refine ih ?_ rfl
    obtain ⟨hworld, hr, -⟩ := hp
    refine ⟨hworld, hr, ?_⟩
    cases hphase : c.phase with
    | start => exact hstart hphase ▸ .same _
    | stop => exact .work rfl hw

/-- Any other action is done alike. -/
theorem spoils_action {action : Action} (ha : action.completion? = none) {deferred : Bool}
    (hrest : c.phase.SpoilsActions deferred rest rest')
    (ih : ∀ {p p' : Progress}, p.Spoils c.phase p' → p.deferred.isSome = deferred →
      SpoilsResult c.phase (perform c rest p) (perform c rest' p'))
    (hp : p.Spoils c.phase p') (hd : p.deferred.isSome = deferred) :
    SpoilsResult c.phase (perform c (action :: rest) p) (perform c (action :: rest') p') := by
  have hwaits : ∀ (wait : Wait) {q q' : Progress}, q.Spoils c.phase q' →
      q.deferred = p.deferred →
        SpoilsResult c.phase (q, .waiting wait rest) (q', .waiting wait rest') :=
    fun wait q q' hq heq => ⟨hq, .waiting wait (by rw [heq, hd]; exact hrest)⟩
  cases action with
  | sleep millis =>
      cases millis with
      | zero => exact ih hp hd
      | succ k => exact hwaits .timer (hp.withWorld (hp.world.setTimer _ _)) rfl
  | note text | context => exact ih (hp.record c (.same _)) hd
  | read label =>
      simp only [perform, hp.world.cells]
      exact ih (hp.record c (.same _)) hd
  | fail failure | panic cause => exact ⟨hp.record c (.same _), .same _⟩
  | runAsync work interruptible catching | run work catching => cases ha
  | remove name awaited =>
      have hask := fun subject => hp.ask subject fun t => Request.Spoils.same (.remove name t)
      cases awaited with
      | false => exact ih (hask _).2 hd
      | true =>
          simp only [perform, (hask none).1]
          exact hwaits _ (hask none).2 rfl
  | has name =>
      have hask := hp.ask none fun t => Request.Spoils.same (.has name t)
      cases hphase : c.phase with
      | stop =>
          simp only [perform, hphase]
          exact hphase ▸ ih hp hd
      | start =>
          simp only [perform, hphase, hask.1]
          exact hphase ▸ hwaits _ hask.2 rfl
  | install service =>
      cases hphase : c.phase with
      | stop =>
          simp only [perform, hphase]
          exact hphase ▸ ih hp hd
      | start =>
          simp only [perform, hphase]
          exact hphase ▸ ih (hp.install _ _ (.same service)) hd
  | composite unit =>
      cases hphase : c.phase with
      | stop =>
          simp only [perform, hphase]
          exact hphase ▸ ih hp hd
      | start =>
          simp only [perform, hphase]
          refine hphase ▸ ih (hp.installComposite _ _ unit (.refl _)) ?_
          rw [(installComposite_deferred p _ _ unit).1, hd]
  | compositeAlone unit =>
      cases hphase : c.phase with
      | stop =>
          simp only [perform, hphase]
          exact hphase ▸ ih hp hd
      | start =>
          simp only [perform, hphase]
          exact hphase ▸ ih (hp.ask _ fun _ => .same _).2 hd

end Actions

theorem spoils_stop {c : Context} (hphase : c.phase = .stop) {deferred : Bool}
    {actions actions' : List Action} (h : SpoilsStop deferred actions actions') {p p' : Progress}
    (hp : p.Spoils c.phase p') (hd : p.deferred.isSome = deferred) :
    SpoilsResult c.phase (perform c actions p) (perform c actions' p') := by
  have hstart : ∀ {work work' : Completion}, c.phase = .start → work' = work := by simp [hphase]
  induction h generalizing p p' with
  | nil deferred =>
      have hisSome := hp.deferred.isSome
      simp only [perform, Progress.finish, hisSome]
      refine ⟨?_, .same _⟩
      split
      · exact hp
      · exact hp.record c (.same _)
  | fail failure =>
      have hnone : p.deferred = none := by simpa using hd
      have hnote : (Note.done c.phase).Spoils (.fail c.phase) := hphase ▸ .fail
      simp only [perform, Progress.finish, hd]
      exact ⟨hp.record c hnote, .failed hphase hnone _⟩
  | panic cause =>
      have hnone : p.deferred = none := by simpa using hd
      have hnote : (Note.done c.phase).Spoils (.panic c.phase) := hphase ▸ .panic
      simp only [perform, Progress.finish, hd]
      exact ⟨hp.record c hnote, .failed hphase hnone _⟩
  | runAsync hw interruptible catching _ ih =>
      exact spoils_deferThen (hw.completion false) hstart interruptible catching ih hp
  | run hw catching _ ih => exact spoils_deferThen (hw.completion true) hstart false catching ih hp
  | same ha hrest ih =>
      refine spoils_action ha ?_ ih hp hd
      rw [hphase]
      exact hrest

theorem spoils_start {c : Context} (hphase : c.phase = .start) {actions actions' : List Action}
    (h : SpoilsStart actions actions') {p p' : Progress} (hp : p.Spoils c.phase p') :
    SpoilsResult c.phase (perform c actions p) (perform c actions' p') := by
  induction actions generalizing actions' p p' with
  | nil =>
      cases h
      have hisSome := hp.deferred.isSome
      simp only [perform, Progress.finish, hisSome]
      refine ⟨?_, .same _⟩
      split
      · exact hp
      · exact hp.record c (.same _)
  | cons action rest ih =>
      cases h with
      | same _ hrest =>
          have hactions : ∀ deferred, c.phase.SpoilsActions deferred rest _ := fun deferred => by
            rw [hphase]
            exact hrest
          cases action with
          | runAsync work interruptible catching =>
              exact spoils_deferThen (.refl ⟨work, false⟩) (fun _ => rfl) interruptible catching
                (fun hp _ => ih hrest hp) hp
          | run work catching =>
              exact spoils_deferThen (.refl ⟨work, true⟩) (fun _ => rfl) false catching
                (fun hp _ => ih hrest hp) hp
          | _ => exact spoils_action rfl (hactions _) (fun hp _ => ih hrest hp) hp rfl
      | install hs hrest =>
          simp only [perform, hphase]
          exact hphase ▸ ih hrest (hp.install _ _ hs)
      | composite unit hc hrest =>
          simp only [perform, hphase]
          exact hphase ▸ ih hrest (hp.installComposite _ _ unit hc)

/-- A callback is carried out alike from its first action. -/
theorem spoils_perform (c : Context) {actions actions' : List Action} {p p' : Progress}
    (h : c.phase.SpoilsActions p.deferred.isSome actions actions') (hp : p.Spoils c.phase p') :
    SpoilsResult c.phase (perform c actions p) (perform c actions' p') := by
  cases hphase : c.phase with
  | start =>
      rw [hphase] at h
      exact hphase ▸ spoils_start hphase h hp
  | stop =>
      rw [hphase] at h
      exact hphase ▸ spoils_stop hphase h hp rfl

/-- A callback is carried on alike. -/
theorem spoils_carryOn (c : Context) {rest rest' : List Action} {p p' : Progress}
    (h : c.phase.SpoilsActions p.deferred.isSome rest rest') (hp : p.Spoils c.phase p')
    (answer : Option (Awaited × Except Error Answer)) :
    SpoilsResult c.phase (carryOn c rest p answer) (carryOn c rest' p' answer) := by
  unfold carryOn
  split
  · exact spoils_perform c h hp
  · exact spoils_perform c h (hp.record c (.same _))
  · exact spoils_perform c h (hp.record c (.same _))
  · exact spoils_perform c h hp
  · exact ⟨hp, .same _⟩

end ServiceHost
