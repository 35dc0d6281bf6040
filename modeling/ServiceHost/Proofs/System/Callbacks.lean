import Mathlib.Logic.Relation
import Mathlib.Tactic.Common
import ServiceHost.Callback

/-! # What a callback asks for

Every request a callback makes comes with a promise of its own, made when the request is. -/

namespace ServiceHost

/-! ## What a callback does -/

namespace Progress

/-- One thing done in a callback, or by who asks for something: it is recorded or asked for, or
completion is deferred. -/
inductive Acts : Progress → Progress → Prop
  | record (p : Progress) (c : Context) (note : Note) : Acts p (p.record c note)
  | defer {p p' : Progress} {work : Completion} {interruptible : Bool}
      (h : p.defer work interruptible = .ok p') : Acts p p'
  | remove (p : Progress) (subject : Option Subject) (name : Name) :
      Acts p (p.ask subject (.remove name)).2
  | install (p : Progress) (origin : Origin) (scope : Option Name) (d : Service) :
      Acts p (p.install origin scope d)
  | composite (p : Progress) (origin : Origin) (scope : Option Name) (c : Composite) :
      Acts p (p.installAlone origin scope c)

/-- Some things were done one after the other. -/
def GoesOn (p p' : Progress) : Prop := Relation.ReflTransGen Acts p p'

variable {p p' p'' : Progress}

theorem GoesOn.refl (p : Progress) : p.GoesOn p := Relation.ReflTransGen.refl

theorem Acts.goesOn (h : p.Acts p') : p.GoesOn p' := Relation.ReflTransGen.single h

theorem GoesOn.trans (h : p.GoesOn p') (h' : p'.GoesOn p'') : p.GoesOn p'' :=
  Relation.ReflTransGen.trans h h'

theorem defer_eq_ok {work : Completion} {interruptible : Bool}
    (h : p.defer work interruptible = .ok p') :
    p.deferred = none ∧ p' = { p with deferred := some work, interruptible } := by
  unfold defer at h
  split at h
  · cases h
  · next hnone => exact ⟨by simpa using hnone, (Except.ok.inj h).symm⟩

theorem goesOn_finish (p : Progress) (c : Context) : p.GoesOn (p.finish c) := by
  unfold finish
  split
  · exact .refl p
  · exact (Acts.record p c _).goesOn

theorem goesOn_installComposite (p : Progress) (origin : Origin) (scope : Option Name)
    (c : Composite) : p.GoesOn (p.installComposite origin scope c) := by
  have h : ∀ (l : List Service) (p : Progress),
      p.GoesOn (l.foldl (fun p d => p.install origin none d) p) := by
    intro l
    induction l with
    | nil => exact .refl
    | cons d l ih => exact fun p => (Acts.install p origin none d).goesOn.trans (ih _)
  exact (h _ p).trans (Acts.composite _ origin scope c).goesOn

end Progress

/-- What a callback asked for before it waits for an answer. -/
def Awaited.request (k : Ticket) : Awaited → Request
  | .removal name => .remove name k
  | .presence name => .has name k

/-- The actions of a callback are carried out up to one that has to wait, whose timer is set or
which asks for something, or up to the return of the callback. -/
inductive Performs (c : Context) : Progress → Progress × Halt → Prop
  | goesOn {p p' : Progress} {result : Progress × Halt} (h : p.GoesOn p')
      (h' : Performs c p' result) : Performs c p result
  | returned (p : Progress) (outcome : Except Failure Unit) : Performs c p (p, .returned outcome)
  | sleeps (p : Progress) (millis : Nat) (rest : List Action) :
      Performs c p ({ p with world := p.world.setTimer millis (.controller c.id) },
        .waiting .timer rest)
  | waits (p : Progress) (awaited : Awaited) (rest : List Action) :
      Performs c p ((p.ask none awaited.request).2,
        .waiting (.answer (p.ask none awaited.request).1 awaited) rest)

section Performs

variable {c : Context} {p : Progress} {rest : List Action}

theorem Performs.record {result : Progress × Halt} {note : Note}
    (h : Performs c (p.record c note) result) : Performs c p result :=
  .goesOn (Progress.Acts.record p c note).goesOn h

theorem performs_deferThen {goOn : Progress → Progress × Halt} (ih : ∀ p, Performs c p (goOn p))
    (p : Progress) (work : Completion) (interruptible catching : Bool) :
    Performs c p (deferThen goOn c work interruptible catching p) := by
  unfold deferThen
  cases hd : p.defer work interruptible with
  | ok p' => exact .goesOn (Progress.Acts.defer hd).goesOn (ih p')
  | error e =>
      dsimp only
      split
      · exact (ih _).record
      · exact (Performs.returned _ _).record

theorem performs_perform (c : Context) (actions : List Action) (p : Progress) :
    Performs c p (perform c actions p) := by
  induction actions generalizing p with
  | nil => exact .goesOn (p.goesOn_finish c) (.returned _ _)
  | cons action rest ih =>
      cases action with
      | sleep millis =>
          cases millis with
          | zero => exact ih p
          | succ k => exact .sleeps p (k + 1) rest
      | note text | context | read label => exact (ih _).record
      | fail failure | panic cause => exact (Performs.returned _ _).record
      | runAsync work interruptible catching =>
          exact performs_deferThen ih p ⟨work, false⟩ interruptible catching
      | run work catching => exact performs_deferThen ih p ⟨work, true⟩ false catching
      | remove name awaited =>
          cases awaited with
          | false => exact .goesOn (Progress.Acts.remove p _ name).goesOn (ih _)
          | true => exact .waits p (.removal name) rest
      | has name =>
          simp only [perform]
          split
          · exact ih p
          · exact .waits p (.presence name) rest
      | install service =>
          simp only [perform]
          split
          · exact ih p
          · exact .goesOn (Progress.Acts.install p _ _ service).goesOn (ih _)
      | composite unit =>
          simp only [perform]
          split
          · exact ih p
          · exact .goesOn (p.goesOn_installComposite _ _ unit) (ih _)
      | compositeAlone unit =>
          simp only [perform]
          split
          · exact ih p
          · exact .goesOn (Progress.Acts.composite p _ _ unit).goesOn (ih _)

theorem performs_carryOn (c : Context) (rest : List Action) (p : Progress)
    (answer : Option (Awaited × Except Error Answer)) : Performs c p (carryOn c rest p answer) := by
  unfold carryOn
  split
  · exact performs_perform c rest p
  · exact (performs_perform c rest _).record
  · exact (performs_perform c rest _).record
  · exact performs_perform c rest p
  · exact .returned p _

end Performs

/-! ## What it asks for -/

/-- Some requests were made one after the other, each with a promise of its own that is still
open. -/
structure Asked (w : World) (asked : List Request) (w' : World) : Prop where
  pledges : ∃ made : List Pledge, w'.pledges = w.pledges ++ made ∧ made.length = asked.length ∧
    ∀ p ∈ made, p.promise = .pending
  tickets : asked.map Request.ticket? = (List.range' w.pledges.length asked.length).map some

namespace Asked

variable {w w' w'' : World} {l l' : List Request}

theorem of_eq (h : w'.pledges = w.pledges) : Asked w [] w' :=
  ⟨⟨[], by simp [h]⟩, rfl⟩

theorem trans (h : Asked w l w') (h' : Asked w' l' w'') : Asked w (l ++ l') w'' := by
  obtain ⟨made, hw, hlen, hopen⟩ := h.pledges
  obtain ⟨made', hw', hlen', hopen'⟩ := h'.pledges
  refine ⟨⟨made ++ made', by rw [hw', hw, List.append_assoc], by simp [hlen, hlen'], ?_⟩, ?_⟩
  · intro p hp
    rcases List.mem_append.mp hp with hp | hp
    · exact hopen p hp
    · exact hopen' p hp
  · rw [List.map_append, h.tickets, h'.tickets, hw, List.length_append, hlen, List.length_append,
      ← List.map_append]
    congr 1
    rw [← List.range'_append]
    simp

theorem pledge (w : World) (subject : Option Subject) (request : Ticket → Request)
    (h : ∀ t, (request t).ticket? = some t) :
    Asked w [request (w.pledge subject).1] (w.pledge subject).2 :=
  ⟨⟨[⟨subject, .pending⟩], rfl, rfl, by simp⟩, by simp [World.pledge, h]⟩

/-- No request that was asked is a report. -/
theorem ticket_isSome (h : Asked w l w') : ∀ r ∈ l, r.ticket?.isSome = true := by
  intro r hr
  have hmem : r.ticket? ∈ l.map Request.ticket? := List.mem_map_of_mem hr
  rw [h.tickets] at hmem
  obtain ⟨t, _, ht⟩ := List.mem_map.mp hmem
  simp [← ht]

end Asked

/-- A callback went on and made some requests. -/
def Progress.Asks (p p' : Progress) : Prop :=
  ∃ asked, p'.requests = p.requests ++ asked ∧ Asked p.world asked p'.world

namespace Progress

variable {p p' p'' : Progress}

theorem Asks.of_eq (hr : p'.requests = p.requests) (hw : p'.world.pledges = p.world.pledges) :
    p.Asks p' :=
  ⟨[], by simp [hr], .of_eq hw⟩

theorem Asks.trans (h : p.Asks p') (h' : p'.Asks p'') : p.Asks p'' := by
  obtain ⟨l, hr, hw⟩ := h
  obtain ⟨l', hr', hw'⟩ := h'
  exact ⟨l ++ l', by rw [hr', hr, List.append_assoc], hw.trans hw'⟩

theorem asks_ask (p : Progress) (subject : Option Subject) (request : Ticket → Request)
    (h : ∀ t, (request t).ticket? = some t) : p.Asks (p.ask subject request).2 :=
  ⟨_, rfl, .pledge p.world subject request h⟩

theorem asks_install (p : Progress) (origin : Origin) (scope : Option Name) (d : Service) :
    p.Asks (p.install origin scope d) := by
  have h : p.Asks { p with world := { p.world with cells := p.world.cells.createFor d } } :=
    .of_eq rfl rfl
  exact h.trans (asks_ask _ _ _ fun _ => rfl)

theorem Acts.asks (h : p.Acts p') : p.Asks p' := by
  cases h with
  | record => exact .of_eq rfl rfl
  | defer h =>
      obtain ⟨_, rfl⟩ := defer_eq_ok h
      exact .of_eq rfl rfl
  | remove | composite => exact asks_ask _ _ _ fun _ => rfl
  | install origin scope d => exact asks_install p origin scope d

/-- Whatever is done, things are only asked for. -/
theorem GoesOn.asks (h : p.GoesOn p') : p.Asks p' := by
  induction h with
  | refl => exact .of_eq rfl rfl
  | tail _ ha ih => exact ih.trans ha.asks

end Progress

theorem Performs.asks {c : Context} {p : Progress} {result : Progress × Halt}
    (h : Performs c p result) : p.Asks result.1 := by
  induction h with
  | goesOn h _ ih => exact h.asks.trans ih
  | returned | sleeps => exact .of_eq rfl rfl
  | waits p awaited rest =>
      refine Progress.asks_ask p none awaited.request fun t => ?_
      cases awaited <;> rfl

end ServiceHost
