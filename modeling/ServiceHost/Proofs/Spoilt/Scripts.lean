import Mathlib.Data.List.Forall2
import ServiceHost.Proofs.System.Completions

/-! # Services whose stops are spoilt

A `stop` that comes back well may fail or panic instead, when it has done all the same, and work it
asks to be complete after may fail or panic instead of being done. Nothing else of a service is
changed, and it may be changed so wherever the service is installed. -/

namespace ServiceHost

/-- Work that would be done may come to another end. -/
def Work.Spoils (work work' : Work) : Prop :=
  work' = work ∨ (work.ending = .done ∧ work'.delay = work.delay)

/-- It takes the same time, and is blocking or not as it was. -/
structure Completion.Spoils (work work' : Completion) : Prop where
  ends : work.toWork.Spoils work'.toWork
  blocking : work'.blocking = work.blocking

/-- The actions of a `stop`, and those of one that is spoilt. The flag tells whether it has asked to
be complete later; one that has not may fail where it would come back. -/
inductive SpoilsStop : Bool → List Action → List Action → Prop
  | nil (deferred : Bool) : SpoilsStop deferred [] []
  | fail (failure : Failure) : SpoilsStop false [] [.fail failure]
  | panic (cause : Panic) : SpoilsStop false [] [.panic cause]
  | runAsync {deferred : Bool} {work work' : Work} (hw : work.Spoils work')
    (interruptible catching : Bool) {rest rest' : List Action} (h : SpoilsStop true rest rest') :
    SpoilsStop deferred (.runAsync work interruptible catching :: rest)
      (.runAsync work' interruptible catching :: rest')
  | run {deferred : Bool} {work work' : Work} (hw : work.Spoils work') (catching : Bool)
    {rest rest' : List Action} (h : SpoilsStop true rest rest') :
    SpoilsStop deferred (.run work catching :: rest) (.run work' catching :: rest')
  | same {deferred : Bool} {action : Action} (ha : action.completion? = none)
    {rest rest' : List Action} (h : SpoilsStop deferred rest rest') :
    SpoilsStop deferred (action :: rest) (action :: rest')

mutual

/-- The actions of a `start`, and those of one that installs services whose stops are spoilt. -/
inductive SpoilsStart : List Action → List Action → Prop
  | nil : SpoilsStart [] []
  | same (action : Action) {rest rest' : List Action} (h : SpoilsStart rest rest') :
    SpoilsStart (action :: rest) (action :: rest')
  | install {service service' : Service} (hs : SpoilsService service service')
    {rest rest' : List Action} (h : SpoilsStart rest rest') :
    SpoilsStart (.install service :: rest) (.install service' :: rest')
  | composite (unit : Composite) {children : List Child}
    (hc : SpoilsChildren unit.children children) {rest rest' : List Action}
    (h : SpoilsStart rest rest') :
    SpoilsStart (.composite unit :: rest) (.composite { unit with children } :: rest')

/-- A service, and the same one with its stop spoilt. -/
inductive SpoilsService : Service → Service → Prop
  | same (service : Service) : SpoilsService service service
  | scripted (service : Service) (immediate : Bool) {start start' stop stop' : List Action}
    (hs : service.callbacks = .scripted immediate start stop) (hstart : SpoilsStart start start')
    (hstop : SpoilsStop false stop stop') :
    SpoilsService service { service with callbacks := .scripted immediate start' stop' }

/-- The children of a composite, and the same ones with their stops spoilt. -/
inductive SpoilsChildren : List Child → List Child → Prop
  | nil : SpoilsChildren [] []
  | cons (suffix : Option Name) {service service' : Service} (hs : SpoilsService service service')
    {children children' : List Child} (h : SpoilsChildren children children') :
    SpoilsChildren (⟨suffix, service⟩ :: children) (⟨suffix, service'⟩ :: children')

end

/-- What a controller runs, and the same with the stop spoilt. -/
inductive Conduct.Spoils : Conduct → Conduct → Prop
  | plain : Spoils .plain .plain
  | composite (children : List Name) : Spoils (.composite children) (.composite children)
  | scripted (immediate : Bool) {start start' stop stop' : List Action}
    (hstart : SpoilsStart start start') (hstop : SpoilsStop false stop stop')
    (dependencies : List Name) (slots : List Label) :
    Spoils (.scripted immediate start stop dependencies slots)
      (.scripted immediate start' stop' dependencies slots)

/-- A plan to run something else. -/
def Plan.withConduct (plan : Plan) (conduct : Conduct) : Plan := { plan with conduct }

/-- A plan, and the same one with the stop of its service spoilt. -/
inductive Plan.Spoils (plan : Plan) : Plan → Prop
  | mk {conduct : Conduct} (h : plan.conduct.Spoils conduct) :
    plan.Spoils (plan.withConduct conduct)

theorem Work.Spoils.refl (work : Work) : work.Spoils work := .inl rfl

theorem Completion.Spoils.refl (work : Completion) : work.Spoils work := ⟨.refl _, rfl⟩

theorem Work.Spoils.completion {work work' : Work} (h : work.Spoils work') (blocking : Bool) :
    Completion.Spoils ⟨work, blocking⟩ ⟨work', blocking⟩ := ⟨h, rfl⟩

theorem Work.Spoils.delay {work work' : Work} (h : work.Spoils work') :
    work'.delay = work.delay := by
  rcases h with rfl | ⟨-, h⟩
  · rfl
  · exact h

theorem SpoilsStop.refl (deferred : Bool) (actions : List Action) :
    SpoilsStop deferred actions actions := by
  induction actions generalizing deferred with
  | nil => exact .nil deferred
  | cons action rest ih =>
      cases action with
      | runAsync work interruptible catching => exact .runAsync (.refl work) _ _ (ih true)
      | run work catching => exact .run (.refl work) _ (ih true)
      | _ => exact .same rfl (ih deferred)

theorem SpoilsStart.refl (actions : List Action) : SpoilsStart actions actions := by
  induction actions with
  | nil => exact .nil
  | cons action rest ih => exact .same action ih

theorem Conduct.Spoils.refl (conduct : Conduct) : conduct.Spoils conduct := by
  cases conduct with
  | plain => exact .plain
  | scripted immediate start stop dependencies slots =>
      exact .scripted immediate (.refl start) (.refl false stop) dependencies slots
  | composite children => exact .composite children

theorem Plan.Spoils.refl (plan : Plan) : plan.Spoils plan := ⟨.refl _⟩

/-! ## Plans -/

/-- Bindings leave alone what a controller runs. -/
theorem foldl_withConduct {α : Type} {bind : Plan → α → Plan} {conduct : Conduct}
    (h : ∀ p a, bind (Plan.withConduct p conduct) a = (bind p a).withConduct conduct) (l : List α)
    (p : Plan) : l.foldl bind (p.withConduct conduct) = (l.foldl bind p).withConduct conduct :=
  List.foldl_hom (fun p : Plan => p.withConduct conduct) h

/-- What the callbacks of a service are shows in what its controller runs only. -/
theorem plan_withCallbacks (d : Service) (callbacks : Callbacks Action) (scope : Option Name) :
    Declaration.plan { d with callbacks } scope =
      (d.plan scope).withConduct (Declaration.conduct { d with callbacks }) := by
  generalize hconduct : Declaration.conduct { d with callbacks } = conduct
  have hbare : Plan.bare d.name d.value conduct =
      (Plan.bare d.name d.value d.conduct).withConduct conduct := rfl
  simp only [Declaration.plan, hconduct]
  rw [hbare, foldl_withConduct fun _ _ => rfl, foldl_withConduct fun _ _ => rfl,
    foldl_withConduct fun _ _ => rfl, foldl_withConduct fun _ _ => rfl,
    foldl_withConduct fun _ _ => rfl]

theorem plan_conduct (d : Service) (scope : Option Name) : (d.plan scope).conduct = d.conduct :=
  congrArg Plan.conduct (plan_withCallbacks d d.callbacks scope)

namespace SpoilsService

variable {service service' : Service} (h : SpoilsService service service')
include h

theorem name : service'.name = service.name := by
  cases h <;> rfl

theorem forget : service'.forget = service.forget := by
  cases h <;> rfl

theorem createFor (cells : Cells) : cells.createFor service' = cells.createFor service := by
  cases h <;> rfl

theorem plan (scope : Option Name) : (service.plan scope).Spoils (service'.plan scope) := by
  cases h with
  | same => exact .refl _
  | @scripted _ immediate _ start' _ stop' hs hstart hstop =>
      rw [plan_withCallbacks service (.scripted immediate start' stop')]
      refine ⟨?_⟩
      rw [plan_conduct, Declaration.conduct, hs]
      exact .scripted immediate hstart hstop _ _

theorem named (suffix : Option Name) (unit : Name) :
    SpoilsService ((⟨suffix, service⟩ : Child).named unit)
      ((⟨suffix, service'⟩ : Child).named unit) := by
  cases suffix with
  | none => exact h
  | some suffix =>
      cases h with
      | same => exact .same _
      | scripted _ immediate hs hstart hstop => exact .scripted _ immediate hs hstart hstop

end SpoilsService

theorem SpoilsChildren.services {children children' : List Child}
    (h : SpoilsChildren children children') (unit : Name) :
    List.Forall₂ SpoilsService (children.map (·.named unit)) (children'.map (·.named unit)) := by
  induction children generalizing children' with
  | nil =>
      cases h
      exact .nil
  | cons child children ih =>
      cases h with
      | cons suffix hs h => exact .cons (hs.named suffix unit) (ih h)

theorem SpoilsChildren.names {children children' : List Child}
    (h : SpoilsChildren children children') (unit : Name) :
    (children'.map (·.named unit)).map Declaration.name =
      (children.map (·.named unit)).map Declaration.name := by
  have hservices := h.services unit
  generalize children.map (·.named unit) = services at hservices
  generalize children'.map (·.named unit) = services' at hservices
  induction hservices with
  | nil => rfl
  | cons hs _ ih => rw [List.map_cons, List.map_cons, hs.name, ih]

/-- A composite does not see how its children stop. -/
theorem SpoilsChildren.plan {unit : Composite} {children : List Child}
    (h : SpoilsChildren unit.children children) (scope : Option Name) :
    CompositeDeclaration.plan { unit with children } scope = unit.plan scope := by
  simp only [CompositeDeclaration.plan, CompositeDeclaration.services, h.names]

end ServiceHost
