import ServiceHost.Proofs.Spoilt.Turns
import ServiceHost.System.Basic
import ServiceHost.System.Moves

/-! # Systems in which stops fail

Two systems agree up to how stops ended if every actor of the one stands where the same actor of the
other does. What an actor does keeps it so: the requests the container takes, and the turns of
controllers and tasks. -/

namespace ServiceHost

section Lists

variable {α : Type} {R : α → α → Prop} {l l' : List α}

theorem forall₂_getElem? (h : List.Forall₂ R l l') (i : Nat) : Option.Rel R l[i]? l'[i]? := by
  induction h generalizing i with
  | nil => exact .none
  | cons hx _ ih =>
      cases i with
      | zero => exact .some hx
      | succ i => exact ih i

theorem forall₂_set (h : List.Forall₂ R l l') (i : Nat) {x x' : α} (hx : R x x') :
    List.Forall₂ R (l.set i x) (l'.set i x') := by
  induction h generalizing i with
  | nil => exact .nil
  | cons hy h ih =>
      cases i with
      | zero => exact .cons hx h
      | succ i => exact .cons hy (ih i)

theorem forall₂_modify (h : List.Forall₂ R l l') (i : Nat) {f : α → α}
    (hf : ∀ {x x'}, R x x' → R (f x) (f x')) :
    List.Forall₂ R (l.modify i f) (l'.modify i f) := by
  induction h generalizing i with
  | nil => simp
  | cons hx h ih =>
      cases i with
      | zero => exact .cons (hf hx) h
      | succ i => exact .cons hx (ih i)

end Lists

/-- How far the work of a task has come. Where a stop was done, it may have failed. -/
inductive SpoilsState (phase : Phase) : TaskState → TaskState → Prop
  | same (state : TaskState) : SpoilsState phase state state
  | failed (hp : phase = .stop) (failure : Failure) :
    SpoilsState phase (.ended (.ok ())) (.ended (.error failure))

/-- A task, and the same one that completes a stop otherwise. -/
inductive Task.Spoils (t : Task) : Task → Prop
  | mk {work : Completion} {state : TaskState} (hw : SpoilsLeft t.phase (some t.work) (some work))
    (hs : SpoilsState t.phase t.state state) : t.Spoils { t with work, state }

/-- A container, and the same one with requests for services whose stop is spoilt. -/
inductive Container.Spoils (c : Container) : Container → Prop
  | mk {inbox : List Request} (h : List.Forall₂ Request.Spoils c.inbox inbox) :
    c.Spoils { c with inbox }

/-- A system, and the same one with stops that are spoilt. -/
inductive System.Spoils (s : System) : System → Prop
  | mk {world : World} {container : Container} {controllers : List Controller}
    {tasks : List Task} (hw : s.world.Spoils world) (hc : s.container.Spoils container)
    (hcs : List.Forall₂ Controller.Spoils s.controllers controllers)
    (hts : List.Forall₂ Task.Spoils s.tasks tasks) :
    s.Spoils { s with world, container, controllers, tasks }

theorem Request.Spoils.operation {r r' : Request} (h : r.Spoils r') :
    r'.operation = r.operation := by
  cases h <;> rfl

/-- Requests that are the same are requests with nothing spoilt. -/
theorem Request.spoils_refl (requests : List Request) :
    List.Forall₂ Request.Spoils requests requests :=
  List.forall₂_same.2 fun request _ => .same request

namespace System.Spoils

variable {s s' : System}

section Parts

variable (h : s.Spoils s')
include h

theorem world : s.world.Spoils s'.world := by
  obtain ⟨hw, -, -, -⟩ := h
  exact hw

theorem controllers : List.Forall₂ Controller.Spoils s.controllers s'.controllers := by
  obtain ⟨-, -, hcs, -⟩ := h
  exact hcs

theorem tasks : List.Forall₂ Task.Spoils s.tasks s'.tasks := by
  obtain ⟨-, -, -, hts⟩ := h
  exact hts

theorem inbox : List.Forall₂ Request.Spoils s.container.inbox s'.container.inbox := by
  obtain ⟨-, ⟨hi⟩, -, -⟩ := h
  exact hi

theorem container : s'.container = { s.container with inbox := s'.container.inbox } := by
  obtain ⟨-, ⟨-⟩, -, -⟩ := h
  rfl

theorem cancelled : s'.cancelled = s.cancelled := by
  obtain ⟨-, -, -, -⟩ := h
  rfl

theorem ready : s'.ready = s.ready := by
  obtain ⟨-, -, -, -⟩ := h
  rfl

theorem givenUp : s'.givenUp = s.givenUp := by
  obtain ⟨-, -, -, -⟩ := h
  rfl

theorem stage : s'.container.stage = s.container.stage := by
  rw [h.container]

theorem graph : s'.container.graph = s.container.graph := by
  rw [h.container]

theorem removals : s'.container.removals = s.container.removals := by
  rw [h.container]

theorem closing : s'.container.closing = s.container.closing := by
  rw [h.container]

/-- The controller of any number. -/
theorem controller? (id : Nat) :
    Option.Rel Controller.Spoils s.controllers[id]? s'.controllers[id]? :=
  forall₂_getElem? h.controllers id

/-- The task of any number. -/
theorem task? (id : Nat) : Option.Rel Task.Spoils s.tasks[id]? s'.tasks[id]? :=
  forall₂_getElem? h.tasks id

theorem withWorld {w w' : World} (hw : w.Spoils w') :
    System.Spoils { s with world := w } { s' with world := w' } := by
  obtain ⟨-, hc, hcs, hts⟩ := h
  exact ⟨hw, hc, hcs, hts⟩

theorem withContainer {c c' : Container} (hc : c.Spoils c') :
    System.Spoils { s with container := c } { s' with container := c' } := by
  obtain ⟨hw, -, hcs, hts⟩ := h
  exact ⟨hw, hc, hcs, hts⟩

theorem withControllers {cs cs' : List Controller} (hcs : List.Forall₂ Controller.Spoils cs cs') :
    System.Spoils { s with controllers := cs } { s' with controllers := cs' } := by
  obtain ⟨hw, hc, -, hts⟩ := h
  exact ⟨hw, hc, hcs, hts⟩

theorem withTasks {ts ts' : List Task} (hts : List.Forall₂ Task.Spoils ts ts') :
    System.Spoils { s with tasks := ts } { s' with tasks := ts' } := by
  obtain ⟨hw, hc, hcs, -⟩ := h
  exact ⟨hw, hc, hcs, hts⟩

theorem withReady (ready : List Actor) :
    System.Spoils { s with ready } { s' with ready } := by
  obtain ⟨hw, hc, hcs, hts⟩ := h
  exact ⟨hw, hc, hcs, hts⟩

/-- What is done for each item of a list is done alike. -/
theorem foldl {α : Type} {f : System → α → System}
    (hf : ∀ {s s' : System}, s.Spoils s' → ∀ a, (f s a).Spoils (f s' a)) (l : List α) :
    (l.foldl f s).Spoils (l.foldl f s') := by
  induction l generalizing s s' with
  | nil => exact h
  | cons a l ih => exact ih (hf h a)

/-- What is done for each request of an inbox is done alike. -/
theorem foldl_requests {f : System → Request → System}
    (hf : ∀ {s s' : System}, s.Spoils s' → ∀ {r r'}, Request.Spoils r r' →
      (f s r).Spoils (f s' r')) {l l' : List Request} (hl : List.Forall₂ Request.Spoils l l') :
    (l.foldl f s).Spoils (l'.foldl f s') := by
  induction hl generalizing s s' with
  | nil => exact h
  | cons hr _ ih => exact ih (hf h hr)

theorem wake (a : Actor) : (s.wake a).Spoils (s'.wake a) := by
  unfold System.wake
  rw [h.ready]
  split
  · exact h
  · exact h.withReady _

theorem wakeAll (actors : List Actor) : (s.wakeAll actors).Spoils (s'.wakeAll actors) :=
  h.foldl (fun h a => h.wake a) actors

theorem setController (id : Nat) {c c' : Controller} (hc : c.Spoils c') :
    (s.setController id c).Spoils (s'.setController id c') :=
  h.withControllers (forall₂_set h.controllers id hc)

theorem setTask (id : Nat) {t t' : Task} (ht : t.Spoils t') :
    (s.setTask id t).Spoils (s'.setTask id t') :=
  h.withTasks (forall₂_set h.tasks id ht)

theorem log (level : Level) (message : String) :
    (s.log level message).Spoils (s'.log level message) :=
  h.withWorld (h.world.log level message)

theorem noticeEnd : s.noticeEnd.Spoils s'.noticeEnd := by
  unfold System.noticeEnd
  rw [h.stage]
  split
  · exact h.wake _
  · exact h

/-! ### Messages, requests and answers -/

theorem deliver (d : Delivery) : (s.deliver d).Spoils (s'.deliver d) := by
  have hcontroller := h.controller? d.inbox
  unfold System.deliver
  generalize s.controllers[d.inbox]? = o, s'.controllers[d.inbox]? = o' at hcontroller
  cases hcontroller with
  | none => exact h
  | @some c c' hc =>
      have hgiven := h.setController d.inbox (hc.withInbox (c.inbox ++ [d.message]))
      simp only [hc.ended, hc.inbox, ← Option.not_isSome, hc.callback_isSome] at hgiven ⊢
      split
      · exact h
      · split
        · exact hgiven.wake _
        · exact hgiven

theorem deliverAll (sent : List Delivery) : (s.deliverAll sent).Spoils (s'.deliverAll sent) :=
  h.foldl (fun h d => h.deliver d) sent

/-- The same controllers wait for an answer. -/
theorem awaiting (ticket : Ticket) : s'.awaiting ticket = s.awaiting ticket := by
  have hcs := h.controllers
  unfold System.awaiting
  generalize s.controllers = cs, s'.controllers = cs' at hcs
  generalize 0 = n
  induction hcs generalizing n with
  | nil => rfl
  | @cons c c' _ _ hc _ ih =>
      obtain ⟨-, hk⟩ := hc
      rw [List.zipIdx_cons, List.zipIdx_cons, List.filterMap_cons, List.filterMap_cons, ih]
      dsimp only
      generalize c.callback = o at hk
      cases hk with
      | none => rfl
      | @some callback _ hcallback =>
          obtain ⟨-, -⟩ := hcallback
          obtain ⟨_, _, _, _, _, wait⟩ := callback
          cases wait <;> rfl

theorem settle (ticket : Ticket) (outcome : Except Error Answer) :
    (s.settle ticket outcome).Spoils (s'.settle ticket outcome) := by
  unfold System.settle
  rw [h.awaiting ticket]
  exact (h.withWorld (h.world.settle ticket outcome)).wakeAll _

theorem settleAll (tickets : List Ticket) (outcome : Except Error Answer) :
    (s.settleAll tickets outcome).Spoils (s'.settleAll tickets outcome) :=
  h.foldl (fun h t => h.settle t outcome) tickets

end Parts

theorem refuse (h : s.Spoils s') {r r' : Request} (hr : r.Spoils r') (e : Error) :
    (s.refuse r e).Spoils (s'.refuse r' e) := by
  cases hr with
  | same =>
      cases r with
      | install plan ticket => exact (h.log _ _).settle ticket _
      | _ => exact h.settleAll _ _
  | install hplan ticket =>
      obtain ⟨-⟩ := hplan
      exact (h.log _ _).settle ticket _

theorem send (h : s.Spoils s') {r r' : Request} (hr : r.Spoils r') :
    (s.send r).Spoils (s'.send r') := by
  have hrefusal : s'.container.refusal? r' = s.container.refusal? r := by
    rw [Container.refusal?, Container.refusal?, h.container, hr.operation]
    rfl
  unfold System.send
  rw [hrefusal]
  split
  · exact h.refuse hr _
  · refine (h.withContainer ?_).wake _
    rw [h.container]
    exact ⟨List.rel_append h.inbox (.cons hr .nil)⟩

theorem sendAll (h : s.Spoils s') {rs rs' : List Request}
    (hrs : List.Forall₂ Request.Spoils rs rs') : (s.sendAll rs).Spoils (s'.sendAll rs') :=
  h.foldl_requests (fun h _ _ hr => h.send hr) hrs

/-! ### The container -/

section Container

variable (h : s.Spoils s')
include h

theorem applyGraph (outcome : Graph.Outcome) :
    (s.applyGraph outcome).Spoils (s'.applyGraph outcome) := by
  refine (h.withContainer ?_).deliverAll _
  rw [h.container]
  exact ⟨h.inbox⟩

theorem install {plan plan' : Plan} (hp : plan.Spoils plan') (ticket : Ticket) :
    (s.install plan ticket).Spoils (s'.install plan' ticket) := by
  have hname : plan'.name = plan.name := by
    obtain ⟨-⟩ := hp
    rfl
  have hregistration : plan'.registration = plan.registration := by
    obtain ⟨-⟩ := hp
    rfl
  have hlaunch : (Controller.launch plan ticket).Spoils (Controller.launch plan' ticket) := by
    obtain ⟨hconduct⟩ := hp
    exact ⟨hconduct, .none⟩
  have hadded := h.withControllers (List.rel_append h.controllers (.cons hlaunch .nil))
  unfold System.install
  rw [h.stage, h.graph, hname]
  split
  · exact h.refuse (.install hp ticket) _
  · split
    · exact h.refuse (.install hp ticket) _
    · dsimp only
      rw [h.graph, h.controllers.length_eq, hregistration]
      exact (hadded.wake _).applyGraph _

theorem remove (name : Name) (ticket : Ticket) :
    (s.remove name ticket).Spoils (s'.remove name ticket) := by
  unfold System.remove
  rw [h.graph]
  split
  · have hasked := h.applyGraph (s.container.graph.requestRemoval name)
    refine hasked.withContainer ?_
    rw [hasked.container]
    exact ⟨hasked.inbox⟩
  · exact h.settle ticket _

theorem closeIfEmpty : s.closeIfEmpty.Spoils s'.closeIfEmpty := by
  unfold System.closeIfEmpty
  rw [h.stage, h.graph]
  split
  · refine h.withContainer ?_
    rw [h.container]
    exact ⟨h.inbox⟩
  · exact h

theorem acceptReport (name : Name) (state : State) (value : Option Value) :
    (s.acceptReport name state value).Spoils (s'.acceptReport name state value) := by
  have hreported := h.applyGraph (s.container.graph.report name state value)
  unfold System.acceptReport
  rw [h.graph]
  dsimp only
  split
  · rw [hreported.removals]
    refine ((hreported.withContainer ?_).settleAll _ _).closeIfEmpty
    rw [hreported.container]
    exact ⟨hreported.inbox⟩
  · exact hreported

/-- A root is asked to stop alike. -/
theorem requestRemoval (name : Name) :
    (s.applyGraph (s.container.graph.requestRemoval name)).Spoils
      (s'.applyGraph (s'.container.graph.requestRemoval name)) := by
  rw [h.graph]
  exact h.applyGraph _

theorem close (ticket : Ticket) : (s.close ticket).Spoils (s'.close ticket) := by
  unfold System.close
  rw [h.stage]
  split
  · exact h.settle ticket _
  · have hlogged := h.log .info "🔌 Closing service container"
    dsimp only
    rw [hlogged.graph]
    refine System.Spoils.closeIfEmpty (System.Spoils.foldl (hlogged.withContainer ?_)
      (f := fun s root => s.applyGraph (s.container.graph.requestRemoval root))
      (fun h root => h.requestRemoval root) _)
    rw [hlogged.container]
    exact ⟨hlogged.inbox⟩

end Container

/-- The container carries out a request alike. -/
theorem process (h : s.Spoils s') {r r' : Request} (hr : r.Spoils r') :
    (s.process r).Spoils (s'.process r') := by
  cases hr with
  | install hp ticket => exact h.install hp ticket
  | same =>
      cases r with
      | install plan ticket => exact h.install (.refl plan) ticket
      | remove name ticket => exact h.remove name ticket
      | has name ticket | state name ticket | text ticket =>
          simp only [System.process, h.graph]
          exact h.settle ticket _
      | close ticket => exact h.close ticket
      | report name state value => exact h.acceptReport name state value

section Container

variable (h : s.Spoils s')
include h

theorem shutDown : s.shutDown.Spoils s'.shutDown := by
  have hemptied : System.Spoils
      { s with container := { s.container with stage := .closed, inbox := [] } }
      { s' with container := { s'.container with stage := .closed, inbox := [] } } := by
    refine h.withContainer ?_
    rw [h.container]
    exact ⟨.nil⟩
  have hrefused := hemptied.foldl_requests
    (fun h _ _ hr => h.refuse hr (.invalidState "complete request" .closed)) h.inbox
  unfold System.shutDown
  dsimp only at hrefused ⊢
  rw [hrefused.cancelled]
  split
  · have hlogged := hrefused.log .warn "⚠️  Service container was closed forcefully"
    rw [hlogged.removals, hlogged.closing]
    refine (hlogged.withContainer ?_).settleAll _ _
    rw [hlogged.container]
    exact ⟨hlogged.inbox⟩
  · exact hrefused

theorem receive : s.receive.Spoils s'.receive := by
  have hinbox := h.inbox
  unfold System.receive
  generalize hi : s.container.inbox = inbox, hi' : s'.container.inbox = inbox' at hinbox
  cases hinbox with
  | nil => exact h
  | @cons _ _ rest rest' hr hrest =>
      have htaken : System.Spoils { s with container := { s.container with inbox := rest } }
          { s' with container := { s'.container with inbox := rest' } } := by
        refine h.withContainer ?_
        rw [h.container]
        exact ⟨hrest⟩
      have hdone := htaken.process hr
      dsimp only at hdone ⊢
      rw [hdone.stage]
      split
      · exact hdone.shutDown
      · exact hdone

theorem finish : s.finish.Spoils s'.finish := by
  have hlogged := h.log .info "🔌 Service container closed"
  unfold System.finish
  dsimp only
  rw [hlogged.closing, hlogged.removals]
  refine ((hlogged.withContainer ?_).settleAll _ _).settleAll _ _
  rw [hlogged.container]
  exact ⟨hlogged.inbox⟩

end Container

end System.Spoils

end ServiceHost
