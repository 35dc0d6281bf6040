import ServiceHost.Proofs.Spoilt.Moves
import ServiceHost.Proofs.System.Milestones

/-! # Runs in which stops fail

Main statement: let the stops of some services fail or panic instead of coming back well, and the
work that others leave for later fail or panic instead of being done. Under the same schedule
nothing else is seen than that these failures are logged. -/

namespace ServiceHost

/-- An operation, and the same one for services whose stops are spoilt. -/
inductive Operation.Spoils : Operation → Operation → Prop
  | same (o : Operation) : Spoils o o
  | install {service service' : Service} (h : SpoilsService service service') :
    Spoils (.install service) (.install service')
  | composite (unit : Composite) {children : List Child}
    (h : SpoilsChildren unit.children children) :
    Spoils (.composite unit) (.composite { unit with children })

/-- What is seen of a controller at any time. -/
structure Sight where
  name : Name
  state : State
  /-- The messages it has before it. -/
  inbox : List Message
  /-- Whether a callback is suspended. -/
  busy : Bool
  ended : Bool

/-- What is seen of a controller. -/
def Controller.sight (c : Controller) : Sight :=
  ⟨c.name, c.state, c.inbox, c.callback.isSome, c.ended⟩

theorem Controller.Spoils.sight {c c' : Controller} (h : c.Spoils c') : c'.sight = c.sight := by
  have hbusy := h.callback_isSome
  obtain ⟨-, -⟩ := h
  unfold Controller.sight
  rw [hbusy]
  rfl

namespace System

/-- Something that happens, and the same for services whose stops are spoilt. -/
inductive Stimulus.Spoils : Stimulus → Stimulus → Prop
  | same (x : Stimulus) : Spoils x x
  | request (origin : Origin) {o o' : Operation} (h : o.Spoils o') :
    Spoils (.request origin o) (.request origin o')

/-! ## What is seen of a run -/

/-- The messages that are put into the inbox of a controller while things happen, in order. -/
def arrived (s : System) : List Stimulus → Nat → List Message
  | [], _ => []
  | x :: rest, i => s.arrivals x i ++ (s.apply x).arrived rest i

/-- The callbacks a controller invokes while things happen, in order. -/
def invocations (s : System) : List Stimulus → Nat → List Phase
  | [], _ => []
  | x :: rest, i => (s.invoked? x i).toList ++ (s.apply x).invocations rest i

/-- What is seen of two runs is the same, but for the notes of stops on how they ended and the log
lines that stops failed. -/
structure SeenAlike (happened happened' : List Stimulus) : Prop where
  /-- Every controller is told the same. -/
  events (i : Nat) : initial.arrived happened' i = initial.arrived happened i
  /-- Every controller carries out the same. -/
  effects (i : Nat) : initial.trace happened' i = initial.trace happened i
  /-- The same states are reported. -/
  reports : initial.noticed happened' = initial.noticed happened
  /-- The same callbacks are invoked. -/
  invocations (i : Nat) : initial.invocations happened' i = initial.invocations happened i
  controllers : (initial.run happened').controllers.map Controller.sight =
    (initial.run happened).controllers.map Controller.sight
  /-- The container knows and waits for the same. -/
  container : { (initial.run happened').container with inbox := [] } =
    { (initial.run happened).container with inbox := [] }
  time : (initial.run happened').world.clock = (initial.run happened).world.clock
  /-- Promises are settled alike, at the same times. -/
  pledges : (initial.run happened').world.pledges = (initial.run happened).world.pledges
  resolutions : (initial.run happened').world.resolutions = (initial.run happened).world.resolutions
  cells : (initial.run happened').world.cells = (initial.run happened).world.cells
  journal : List.Forall₂ Entry.Spoils (initial.run happened).world.journal
    (initial.run happened').world.journal
  logs : SpoilsLogs (initial.run happened).world.logs (initial.run happened').world.logs
  /-- The lines that are no errors are the same. -/
  lines : (initial.run happened').world.logs.filter (·.level ≠ .error) =
    (initial.run happened).world.logs.filter (·.level ≠ .error)

namespace Spoils

variable {s s' : System} {origin : Origin}

/-! ## Runs -/

theorem begin : initial.Spoils initial := ⟨⟨.nil, .nil⟩, ⟨.nil⟩, .nil, .nil⟩

theorem ask (h : s.Spoils s') (subject : Option Subject) {request : Ticket → Request} :
    (s.ask subject request).2.Spoils (s'.ask subject request).2 := by
  obtain ⟨hticket, hworld⟩ := h.world.pledge subject
  unfold System.ask
  dsimp only
  rw [hticket]
  exact (h.withWorld hworld).send (.same _)

/-- Installs are asked for alike. -/
theorem submit (h : s.Spoils s') {installs installs' : Progress → Progress}
    (hi : ∀ {p p' : Progress}, p.Spoils .start p' → (installs p).Spoils .start (installs' p')) :
    (s.submit installs).Spoils (s'.submit installs') := by
  have hp := hi (.begin h.world)
  exact (h.withWorld hp.world).sendAll hp.requests

theorem runtime (h : s.Spoils s') : s'.runtime = s.runtime := by
  unfold System.runtime
  rw [h.container, h.givenUp]

theorem start (h : s.Spoils s') :
    (s.operate origin .start).2.Spoils (s'.operate origin .start).2 := by
  have hlogged : System.Spoils
      ({ s with container := { s.container with stage := .opened } }.log .info
        "🚀 Service container started")
      ({ s' with container := { s'.container with stage := .opened } }.log .info
        "🚀 Service container started") := by
    refine (h.withContainer ?_).log _ _
    rw [h.container]
    exact ⟨h.inbox⟩
  unfold System.operate System.start
  dsimp only
  rw [h.runtime]
  cases s.runtime with
  | idle => exact hlogged.wake _
  | running | stopped => exact h

theorem operate (h : s.Spoils s') {o o' : Operation} (ho : o.Spoils o') :
    (s.operate origin o).2.Spoils (s'.operate origin o').2 := by
  cases ho with
  | install hs => exact h.submit fun hp => hp.install origin none hs
  | composite unit hc => exact h.submit fun hp => hp.installComposite origin none unit hc
  | same =>
      cases o with
      | start => exact h.start
      | install d => exact h.submit fun hp => hp.install origin none (.same d)
      | composite c => exact h.submit fun hp => hp.installComposite origin none c (.refl _)
      | compositeAlone c => exact h.submit fun hp => (hp.ask _ fun _ => .same _).2
      | remove | has | state | text | close | closeInTime | textOfRest => exact h.ask _

theorem sights (h : s.Spoils s') :
    s'.controllers.map Controller.sight = s.controllers.map Controller.sight := by
  have hcs := h.controllers
  generalize s.controllers = cs, s'.controllers = cs' at hcs
  induction hcs with
  | nil => rfl
  | cons hc _ ih => rw [List.map_cons, List.map_cons, ih, hc.sight]

/-- Whatever happens, the systems still agree up to how stops ended. -/
theorem apply (h : s.Spoils s') {x x' : Stimulus} (hx : x.Spoils x') :
    (s.apply x).Spoils (s'.apply x') := by
  cases hx with
  | request origin ho => exact h.operate ho
  | same =>
      cases x with
      | move m => exact h.perform m
      | passOver =>
          simp only [System.apply, h.ready]
          exact h.withReady _
      | elapse t => exact h.elapse t
      | wait clock round =>
          simp only [System.apply, h.world.clock]
          exact h.withWorld (h.world.moveTo _ _ h.world.timers)
      | request origin o => exact h.operate (.same o)
      | cancel => exact h.cancel
      | log level message => exact h.log level message
      | giveUp => exact h.giveUp

theorem run (h : s.Spoils s') {happened happened' : List Stimulus}
    (hx : List.Forall₂ Stimulus.Spoils happened happened') :
    (s.run happened).Spoils (s'.run happened') := by
  induction hx generalizing s s' with
  | nil => exact h
  | cons hx _ ih => exact ih (h.apply hx)

end Spoils

/-- What is gathered along two runs is the same if each step adds the same to it. -/
theorem gathered_spoils {α : Type} {added : System → Stimulus → List α}
    (gathered : System → List Stimulus → List α) (hnil : ∀ s, gathered s [] = [])
    (hcons : ∀ s x rest, gathered s (x :: rest) = added s x ++ gathered (s.apply x) rest)
    (hadded : ∀ {s s' : System}, s.Spoils s' → ∀ {x x' : Stimulus}, x.Spoils x' →
      added s' x' = added s x)
    {s s' : System} (h : s.Spoils s') {happened happened' : List Stimulus}
    (hx : List.Forall₂ Stimulus.Spoils happened happened') :
    gathered s' happened' = gathered s happened := by
  induction hx generalizing s s' with
  | nil => rw [hnil, hnil]
  | cons hx _ ih => rw [hcons, hcons, hadded h hx, ih (h.apply hx)]

section Steps

variable {s s' : System} (h : s.Spoils s') {x x' : Stimulus} (hx : x.Spoils x') (i : Nat)
include h

theorem inboxOf_spoils : s'.inboxOf i = s.inboxOf i := by
  have hcontroller := h.controller? i
  unfold inboxOf
  generalize s.controllers[i]? = o, s'.controllers[i]? = o' at hcontroller
  cases hcontroller with
  | none => rfl
  | some hc => exact hc.inbox

theorem taken_spoils : s'.taken x i = s.taken x i := by
  unfold taken
  split
  · rw [h.canMove]
  · rfl

include hx

theorem arrivals_spoils : s'.arrivals x' i = s.arrivals x i := by
  have htaken : s'.taken x' i = s.taken x i := by
    cases hx with
    | same => exact taken_spoils h i
    | request => rfl
  unfold arrivals
  rw [inboxOf_spoils (h.apply hx), inboxOf_spoils h, htaken]

theorem effects_spoils : s'.effects x' i = s.effects x i := by
  cases hx with
  | request => rfl
  | same =>
      have hcontroller := h.controller? i
      unfold effects
      split
      · rw [h.canMove]
        generalize s.controllers[i]? = o, s'.controllers[i]? = o' at hcontroller
        cases hcontroller with
        | none => rfl
        | some hc => simp only [Option.map_some, hc.effects]
      · rfl

theorem invoked?_spoils : s'.invoked? x' i = s.invoked? x i := by
  cases hx with
  | request => rfl
  | same =>
      have hcontroller := h.controller? i
      unfold invoked?
      split
      · next j =>
          by_cases hj : j = i
          · rw [if_pos hj, if_pos hj]
            generalize s.controllers[i]? = o, s'.controllers[i]? = o' at hcontroller
            cases hcontroller with
            | none => rfl
            | some hc =>
                rw [Option.filter_some, Option.filter_some, hc.canTake]
                split
                · exact hc.invokes? h.world
                · rfl
          · rw [if_neg hj, if_neg hj]
      · rfl

omit i in
/-- The same controller makes its turn. -/
theorem turn?_spoils : Option.Rel (fun y y' => y'.1 = y.1 ∧ y.2.Spoils y'.2) (s.turn? x)
    (s'.turn? x') := by
  cases hx with
  | request => exact .none
  | same =>
      unfold turn?
      split
      · next i =>
          have hcontroller := h.controller? i
          generalize s.controllers[i]? = o, s'.controllers[i]? = o' at hcontroller
          cases hcontroller with
          | none => exact .none
          | some hc =>
              rw [Option.filter_some, Option.filter_some, hc.canTake]
              split
              · exact .some ⟨rfl, hc.take h.world i⟩
              · exact .none
      · next i =>
          have hcontroller := h.controller? i
          generalize s.controllers[i]? = o, s'.controllers[i]? = o' at hcontroller
          cases hcontroller with
          | none => exact .none
          | some hc =>
              rw [Option.filter_some, Option.filter_some, hc.canResume h.world]
              split
              · exact .some ⟨rfl, hc.resume h.world i⟩
              · exact .none
      · exact .none

omit i in
theorem notices_spoils : s'.notices x' = s.notices x := by
  have hturn := turn?_spoils h hx
  unfold notices
  generalize s.turn? x = o, s'.turn? x' = o' at hturn
  cases hturn with
  | none => rfl
  | @some y y' hy =>
      obtain ⟨i, t⟩ := y
      obtain ⟨i', t'⟩ := y'
      obtain ⟨hi, ht⟩ := hy
      obtain rfl : i' = i := hi
      dsimp only
      rw [ht.reported]

end Steps

/-- Nobody sees that stops fail, but in the log. -/
theorem seenAlike_run {happened happened' : List Stimulus}
    (hx : List.Forall₂ Stimulus.Spoils happened happened') (n : Nat) :
    SeenAlike (happened.take n) (happened'.take n) := by
  have htaken := List.forall₂_take n hx
  have hrun := Spoils.begin.run htaken
  refine ⟨fun i => ?_, fun i => ?_, ?_, fun i => ?_, ?_, ?_, ?_, ?_, ?_, ?_, ?_, ?_, ?_⟩
  · exact gathered_spoils (·.arrived · i) (fun _ => rfl) (fun _ _ _ => rfl)
      (fun h _ _ hx => arrivals_spoils h hx i) Spoils.begin htaken
  · exact gathered_spoils (·.trace · i) (fun _ => rfl) (fun _ _ _ => rfl)
      (fun h _ _ hx => effects_spoils h hx i) Spoils.begin htaken
  · exact gathered_spoils noticed (fun _ => rfl) (fun _ _ _ => rfl)
      (fun h _ _ hx => notices_spoils h hx) Spoils.begin htaken
  · exact gathered_spoils (·.invocations · i) (fun _ => rfl) (fun _ _ _ => rfl)
      (fun h _ _ hx => congrArg Option.toList (invoked?_spoils h hx i)) Spoils.begin htaken
  · exact hrun.sights
  · rw [hrun.container]
  · exact hrun.world.clock
  · exact hrun.world.pledges
  · exact hrun.world.resolutions
  · exact hrun.world.cells
  · exact hrun.world.journal
  · exact hrun.world.logs
  · exact hrun.world.logs.filter

/-- A service that stops as told. -/
def stoppingService (name : Name) (dependencies : List Name) (stop : List Action) : Service :=
  { plainService name dependencies with callbacks := .scripted false [] stop }

/-- A service is removed together with one that depends on it. The one stops as told, and the other
is done with its stop five milliseconds later. -/
def stopBoth (stop : List Action) (ending : Ending) : List Stimulus :=
  [.request (.request 0) .start,
    .request (.request 1) (.install (stoppingService "db" [] stop)),
    .request (.request 2) (.install (stoppingService "web" ["db"]
      [.runAsync ⟨5, ending⟩ false false]))] ++
  turns 4 2 ++ .request (.request 3) (.remove "db") :: turns 5 2 ++
  [.move (.run 0), .elapse ⟨5, 0, .task 0⟩, .move (.run 0), .move (.join 0)] ++ turns 6 2

/-- Both stops fail, the one by a panic and the other late. Both services are gone all the same, and
only the log tells. -/
theorem seenAlike_stopBoth :
    List.Forall₂ Stimulus.Spoils (stopBoth [] .done)
      (stopBoth [.panic .unreadable] (.fail (.ofMessage "late"))) ∧
    (initial.run (stopBoth [] .done)).controllers.map (·.state) = [.removed, .removed] ∧
    (initial.run (stopBoth [] .done)).world.logs.map (·.message) =
      ["🚀 Service container started"] ∧
    (initial.run (stopBoth [.panic .unreadable] (.fail (.ofMessage "late")))).world.logs.map
        (·.message) =
      ["Service db failed to stop: stop panicked: unknown cause",
        "Service web failed to stop: late", "🚀 Service container started"] ∧
    ∀ n, SeenAlike ((stopBoth [] .done).take n)
      ((stopBoth [.panic .unreadable] (.fail (.ofMessage "late"))).take n) := by
  have hrest : ∀ l : List Stimulus, List.Forall₂ Stimulus.Spoils l l := fun l =>
    List.forall₂_same.2 fun x _ => .same x
  have hdb : SpoilsService (stoppingService "db" [] [])
      (stoppingService "db" [] [.panic .unreadable]) :=
    .scripted _ false rfl .nil (.panic _)
  have hlate : Work.Spoils ⟨5, .done⟩ ⟨5, .fail (.ofMessage "late")⟩ := .inr ⟨rfl, rfl⟩
  have hweb : SpoilsService (stoppingService "web" ["db"] [.runAsync ⟨5, .done⟩ false false])
      (stoppingService "web" ["db"] [.runAsync ⟨5, .fail (.ofMessage "late")⟩ false false]) :=
    .scripted _ false rfl .nil (.runAsync hlate false false (.nil true))
  have hx : List.Forall₂ Stimulus.Spoils (stopBoth [] .done)
      (stopBoth [.panic .unreadable] (.fail (.ofMessage "late"))) :=
    .cons (.same _) (.cons (.request _ (.install hdb)) (.cons (.request _ (.install hweb))
      (hrest _)))
  exact ⟨hx, by decide +kernel, by decide +kernel, by decide +kernel, seenAlike_run hx⟩

end System

end ServiceHost
